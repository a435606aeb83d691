import DriveWire.Server.System

/-! # Scripted Peers

    With peers and disks that answer by a function, a list of task turns
    computes a run: peers that send fixed bytes, and then keep their
    connections open or close them, are of this kind. -/

namespace DriveWire

open Async

/-! ## Section 1: Computed answers

    Peers and disks that answer by a function. -/

structure Answers (D F N : Type) where
  net : Tid → (i : Io) → N → Poll i.Res × N
  sys : (y : Sys D) → F → y.Res × F

namespace Answers

variable {D F N : Type} (a : Answers D F N)

def env : Env D F N where
  net := fun t i n r n' => r = (a.net t i n).1 ∧ n' = (a.net t i n).2
  sys := fun _ y f r f' => r = .ready (a.sys y f).1 ∧ f' = (a.sys y f).2
  connect := fun _ _ => True
  netStep := fun _ _ => False

/-- The polls of `a.env`, computed. -/
def poll (t : Tid) : (e : Eff D) → World D F N → Poll e.Res × World D F N
  | .io i, w => ((a.net t i w.net).1, { w with net := (a.net t i w.net).2 })
  | .sys y, w => (.ready (a.sys y w.sys).1, { w with sys := (a.sys y w.sys).2 })
  | .lock l .exclusive, w =>
    if w.holders l = [] then (.ready (), w.acquire t l .exclusive) else (.pending, w)
  | .lock l .shared, w =>
    if ∀ h ∈ w.holders l, h.2 = .shared then (.ready (), w.acquire t l .shared) else (.pending, w)
  | .unlock l, w => (.ready (), w.release t l)
  | .op o, w => (.ready (o.run w.server).1, { w with server := (o.run w.server).2 })
  | .notifyOne c, w =>
    (.ready (), { w with notify := Function.update w.notify c (w.notify c).notifyOne })
  | .notified c, w =>
    (((w.notify c).poll t).1,
      { w with notify := Function.update w.notify c ((w.notify c).poll t).2 })
  | .never, w => (.pending, w)
  | .spawn u, w => (.ready (), { w with spawned := u :: w.spawned })
  | .select u v, w => if u ∈ w.exited ∨ v ∈ w.exited then (.ready (), w) else (.pending, w)

theorem poll_spec (t : Tid) (e : Eff D) (w : World D F N) :
    DriveWire.poll a.env t e w (a.poll t e w).1 (a.poll t e w).2 := by
  -- a computed answer is one of those that the relation allows
  cases e with
  | io i => exact ⟨_, ⟨rfl, rfl⟩, rfl⟩
  | sys y => exact ⟨_, ⟨rfl, rfl⟩, rfl⟩
  | lock l m =>
    cases m with
    | exclusive =>
      by_cases h : w.holders l = []
      · rw [poll, if_pos h]
        exact .inr ⟨h, rfl, rfl⟩
      · rw [poll, if_neg h]
        exact .inl ⟨rfl, rfl⟩
    | shared =>
      by_cases h : ∀ h ∈ w.holders l, h.2 = .shared
      · rw [poll, if_pos h]
        exact .inr ⟨h, rfl, rfl⟩
      · rw [poll, if_neg h]
        exact .inl ⟨rfl, rfl⟩
  | unlock l => exact ⟨rfl, rfl⟩
  | op o => exact ⟨rfl, rfl⟩
  | notifyOne c => exact ⟨rfl, rfl⟩
  | notified c => exact ⟨rfl, rfl⟩
  | never => exact ⟨rfl, rfl⟩
  | spawn u => exact ⟨rfl, rfl⟩
  | select u v =>
    by_cases h : u ∈ w.exited ∨ v ∈ w.exited
    · rw [poll, if_pos h]
      exact ⟨rfl, .inr ⟨rfl, h⟩⟩
    · rw [poll, if_neg h]
      exact ⟨rfl, .inl rfl⟩

/-- The polls of every environment that allows these answers. -/
theorem poll_spec_in {env : Env D F N}
    (hnet : ∀ t i n, env.net t i n (a.net t i n).1 (a.net t i n).2)
    (hsys : ∀ t y f, env.sys t y f (.ready (a.sys y f).1) (a.sys y f).2)
    (t : Tid) (e : Eff D) (w : World D F N) :
    DriveWire.poll env t e w (a.poll t e w).1 (a.poll t e w).2 := by
  cases e with
  | io i => exact ⟨_, hnet t i w.net, rfl⟩
  | sys y => exact ⟨_, hsys t y w.sys, rfl⟩
  | lock l m => exact a.poll_spec t (.lock l m) w
  | select u v => exact a.poll_spec t (.select u v) w
  | _ => exact ⟨rfl, rfl⟩

/-- Which tasks may be started, computed. -/
def start : Tid → World D F N → Bool
  | .attachIn n channel, w => decide (.attachIn n channel ∈ w.spawned)
  | .attachOut n channel, w => decide (.attachOut n channel ∈ w.spawned)
  | _, _ => true

/-- A task that is not spawned starts where its connection may be accepted. -/
theorem mayStart_of_start {env : Env D F N} {t : Tid} {w : World D F N}
    (hconnect : env.connect t w.net) (h : start t w = true) : mayStart env t w := by
  cases t with
  | attachIn n channel =>
    have hmem : Tid.attachIn n channel ∈ w.spawned := of_decide_eq_true h
    exact hmem
  | attachOut n channel =>
    have hmem : Tid.attachOut n channel ∈ w.spawned := of_decide_eq_true h
    exact hmem
  | _ => exact hconnect

theorem start_spec (t : Tid) (w : World D F N) (h : start t w = true) : mayStart a.env t w :=
  mayStart_of_start trivial h

variable [VDisk D] [UnicodeTables]

/-- The state after the listed turns. -/
def play (c : SysConfig D F N) (turns : List Tid) : SysConfig D F N :=
  schedule (system a.env) a.poll start c turns

/-- The labels of the listed turns. -/
def labels (c : SysConfig D F N) (turns : List Tid) : List (SysLabel D) :=
  scheduleLabels (system a.env) a.poll start c turns

theorem play_run (c : SysConfig D F N) (turns : List Tid) :
    Run (system a.env) anyStep c (a.labels c turns) (a.play c turns) :=
  run_schedule a.poll_spec a.start_spec c turns (scheduleMeets_any c turns)

end Answers

/-! ## Section 2: Scripted peers -/

/-- The far end of one transport: what it still sends, whether it is gone
    once that is read, and what it has received. -/
structure Peer where
  sends    : List UInt8
  closed   : Bool
  received : List UInt8

/-- A peer that stays connected. -/
def Peer.sending (bs : List UInt8) : Peer := ⟨bs, false, []⟩

/-- A peer that closes its connection after its last byte. -/
def Peer.leaving (bs : List UInt8) : Peer := ⟨bs, true, []⟩

def brokenPipe : IoError := ⟨.brokenPipe, str "broken pipe"⟩

/-- How a scripted peer answers. -/
def Peer.answer : (i : Io) → Peer → Poll i.Res × Peer
  | .readExact n, p =>
    if h : n ≤ p.sends.length then
      (.ready (.ok (takeVector n p.sends h)), { p with sends := p.sends.drop n })
    else if p.closed then (.ready (.error earlyEof), { p with sends := [] })
    else (.pending, p)
  | .read n, p =>
    if p.sends = [] ∧ ¬ p.closed then (.pending, p)
    else (.ready (.ok (p.sends.take n)), { p with sends := p.sends.drop n })
  | .writeAll bs, p =>
    if p.closed ∧ p.sends = [] then (.ready (.error brokenPipe), p)
    else (.ready (.ok ()), { p with received := p.received ++ bs })
  | .nextLine, p => (.pending, p)
  | .nextCall, p => (.pending, p)

/-- Answers of disks and clock that are never asked. -/
def Sys.answer {D : Type} : (s : Sys D) → s.Res
  | .diskRead _ lsn => .error (.outOfRange lsn)
  | .diskWrite _ lsn _ => .error (.outOfRange lsn)
  | .diskOpen _ _ => .error .readOnly
  | .nowLocal => none
  | .nowUtc => ⟨1970, 1, 1, 0, 0, 0⟩

/-- The environment of scripted peers, one for each task. -/
def scripted : Env Unit Unit (Tid → Peer) where
  net := fun t i n r n' => r = ((n t).answer i).1 ∧ n' = Function.update n t ((n t).answer i).2
  sys := fun _ s _ r _ => r = .ready s.answer
  connect := fun _ _ => True
  netStep := fun _ _ => False

/-- The polls of `scripted`, computed. -/
def scriptedPoll (t : Tid) : (e : Eff Unit) → World Unit Unit (Tid → Peer) →
    Poll e.Res × World Unit Unit (Tid → Peer)
  | .io i, w =>
    (((w.net t).answer i).1, { w with net := Function.update w.net t ((w.net t).answer i).2 })
  | .sys s, w => (.ready s.answer, w)
  | .lock l .exclusive, w =>
    if w.holders l = [] then (.ready (), w.acquire t l .exclusive) else (.pending, w)
  | .lock l .shared, w =>
    if ∀ h ∈ w.holders l, h.2 = .shared then (.ready (), w.acquire t l .shared) else (.pending, w)
  | .unlock l, w => (.ready (), w.release t l)
  | .op o, w => (.ready (o.run w.server).1, { w with server := (o.run w.server).2 })
  | .notifyOne c, w =>
    (.ready (), { w with notify := Function.update w.notify c (w.notify c).notifyOne })
  | .notified c, w =>
    (((w.notify c).poll t).1,
      { w with notify := Function.update w.notify c ((w.notify c).poll t).2 })
  | .never, w => (.pending, w)
  | .spawn u, w => (.ready (), { w with spawned := u :: w.spawned })
  | .select u v, w => if u ∈ w.exited ∨ v ∈ w.exited then (.ready (), w) else (.pending, w)

/-- The same answers, for the general rule. -/
def scriptedAnswers : Answers Unit Unit (Tid → Peer) where
  net := fun t i n => (((n t).answer i).1, Function.update n t ((n t).answer i).2)
  sys := fun s f => (s.answer, f)

theorem scriptedPoll_eq (t : Tid) (e : Eff Unit) (w : World Unit Unit (Tid → Peer)) :
    scriptedPoll t e w = scriptedAnswers.poll t e w := by
  cases e with
  | lock l m => cases m <;> rfl
  | _ => rfl

theorem scriptedPoll_spec (t : Tid) (e : Eff Unit) (w : World Unit Unit (Tid → Peer)) :
    poll scripted t e w (scriptedPoll t e w).1 (scriptedPoll t e w).2 := by
  have hnet : ∀ t i n,
      scripted.net t i n (scriptedAnswers.net t i n).1 (scriptedAnswers.net t i n).2 :=
    fun _ _ _ => ⟨rfl, rfl⟩
  rw [scriptedPoll_eq]
  exact scriptedAnswers.poll_spec_in hnet (fun _ _ _ => rfl) t e w

/-- Which tasks may be started, computed. -/
def scriptedStart : Tid → World Unit Unit (Tid → Peer) → Bool
  | .attachIn n channel, w => decide (.attachIn n channel ∈ w.spawned)
  | .attachOut n channel, w => decide (.attachOut n channel ∈ w.spawned)
  | _, _ => true

theorem scriptedStart_spec (t : Tid) (w : World Unit Unit (Tid → Peer))
    (h : scriptedStart t w = true) : mayStart scripted t w := by
  have hsame : scriptedStart t w = Answers.start t w := by
    cases t <;> rfl
  exact Answers.mayStart_of_start trivial (hsame ▸ h)

abbrev ScriptConfig : Type := SysConfig Unit Unit (Tid → Peer)

/-- The state of an empty server with scripted peers after the listed turns. -/
def play (peers : Tid → Peer) (turns : List Tid) : ScriptConfig :=
  schedule (plainSystem scripted) scriptedPoll scriptedStart
    (Config.initial (World.initial (Server.new Unit) () peers)) turns

/-- The condition that every turn of a script must meet for its run to meet `ok`. -/
abbrev playMeets (ok : ScriptConfig → SysLabel Unit → Prop) (peers : Tid → Peer)
    (turns : List Tid) : Prop :=
  scheduleMeets (plainSystem scripted) scriptedPoll scriptedStart ok
    (Config.initial (World.initial (Server.new Unit) () peers)) turns

theorem play_run_of {ok : ScriptConfig → SysLabel Unit → Prop} (peers : Tid → Peer)
    (turns : List Tid) (hok : playMeets ok peers turns) :
    ∃ tr, Run (plainSystem scripted) ok
      (Config.initial (World.initial (Server.new Unit) () peers)) tr (play peers turns) :=
  ⟨_, run_schedule scriptedPoll_spec scriptedStart_spec _ turns hok⟩

theorem play_run (peers : Tid → Peer) (turns : List Tid) :
    ∃ tr, Run (plainSystem scripted) anyStep
      (Config.initial (World.initial (Server.new Unit) () peers)) tr (play peers turns) :=
  play_run_of peers turns (scheduleMeets_any _ turns)

/-- A task without a turn has not started. -/
theorem play_idle (peers : Tid → Peer) {turns : List Tid} {t : Tid} (ht : t ∉ turns) :
    (play peers turns).task t = .idle :=
  schedule_task ht _

/-- The state with other peers. -/
def withNet {D F N : Type} (cfg : SysConfig D F N) (x : N) : SysConfig D F N :=
  { cfg with world := { cfg.world with net := x } }

theorem ambient_step {D F N : Type} {disk : VDisk D} {tables : UnicodeTables} {env : Env D F N}
    {cfg : SysConfig D F N} {x : N} (h : env.netStep cfg.world.net x) :
    Step (@system D F N disk tables env) cfg none (withNet cfg x) :=
  .ambient _ ⟨x, h, rfl⟩

end DriveWire
