import DriveWire.Server.Script

/-! # Locks and Stalled Peers

    A peer can stop reading or sending at any byte, and then its task stays
    suspended on its transport.  That must not stop the other tasks, so a
    task must hold no lock there.  Section 1 states the discipline, Section 2
    checks every handler against it, Section 3 lifts it to runs.

    One handler breaks it: `handle_serread` writes its reply in the scope of
    the outbox guard.  The results are about runs without that step. -/

namespace DriveWire

open Async Server

variable {D F N : Type}

/-! ## Section 1: The discipline -/

/-- The order in which locks are taken when they are held together. -/
def Lock.rank : Lock → Nat
  | .drives => 0
  | .printBuffer => 1
  | .vserialOpen => 2
  | .vserialInbox => 3
  | .vserialOutbox => 4

theorem Lock.rank_lt (l : Lock) : l.rank < 5 := by
  cases l <;> decide

/-- The state is the list of the locks that the task holds.  Locks are taken
    in increasing order, and a task that holds one performs nothing that
    waits for anybody else. -/
def locking : Protocol (Eff D) Eff.Res (List Lock) where
  allows := fun held e =>
    match e with
    | .lock l _ => ∀ l' ∈ held, l'.rank < l.rank
    | .unlock l => l ∈ held
    | .op o => o.lock ∈ held
    | .notifyOne _ | .spawn _ => True
    | _ => held = []
  admits := fun _ e _ =>
    match e with
    | .op .outboxScan => False
    | _ => True
  next := fun held e _ =>
    match e with
    | .lock l _ => l :: held
    | .unlock l => held.erase l
    | _ => held

/-- Code that starts and ends without a lock. -/
def Balanced {α : Type} (c : Code D α) : Prop := c.Obeys locking [] (fun _ held => held = [])

/-! ## Section 2: Every handler -/

theorem balanced_ret {α : Type} (a : α) : Balanced (Prog.ret a : Code D α) := rfl

theorem Balanced.bind {α β : Type} {c : Code D α} {f : α → Code D β} (hc : Balanced c)
    (hf : ∀ a, Balanced (f a)) : Balanced (c >>= f) := by
  refine Prog.Obeys.bind hc fun a held hheld => ?_
  rw [hheld]
  exact hf a

theorem Balanced.run_bind {α β : Type} {x : Handler D α} {f : α → Handler D β}
    (hx : Balanced x.run) (hf : ∀ a, Balanced (f a).run) : Balanced (x >>= f).run := by
  rw [ExceptT.run_bind]
  refine hx.bind fun r => ?_
  cases r with
  | ok a => exact hf a
  | error e => rfl

theorem balanced_io (i : Io) : Balanced (await (.io i) : Code D _) :=
  ⟨rfl, fun _ _ => rfl⟩

theorem balanced_sys (y : Sys D) : Balanced (await (.sys y)) :=
  ⟨rfl, fun _ _ => rfl⟩

theorem balanced_notifyOne (c : Channel) : Balanced (await (.notifyOne c) : Code D _) :=
  ⟨trivial, fun _ _ => rfl⟩

theorem balanced_guarded (m : Mode) (o : Op D) : Balanced (guarded m o) := by
  rw [guarded_eq]
  refine ⟨List.forall_mem_nil _, fun _ _ => ⟨List.mem_cons_self, fun a _ => ?_⟩⟩
  refine ⟨List.mem_cons_self, fun _ _ => ?_⟩
  show [o.lock].erase o.lock = []
  simp

theorem balanced_call {α : Type} {c : Code D α} (hc : Balanced c) : Balanced (call c).run := by
  rw [run_call]
  exact hc.bind fun a => balanced_ret _

theorem balanced_readExact (n : Nat) : Balanced (readExact n : Handler D _).run := by
  refine (balanced_io (.readExact n)).bind fun r => ?_
  cases r <;> rfl

theorem balanced_writeAll (bs : List UInt8) : Balanced (writeAll bs : Handler D _).run := by
  refine (balanced_io (.writeAll bs)).bind fun r => ?_
  cases r <;> rfl

theorem balanced_pushVserial (channel byte : UInt8) :
    Balanced (pushVserial channel byte : Code D _) := by
  unfold pushVserial
  split
  · exact (balanced_guarded _ _).bind fun _ => balanced_notifyOne _
  · rfl

theorem balanced_drainVserial (channel : UInt8) : Balanced (drainVserial channel : Code D _) := by
  unfold drainVserial
  split
  · exact balanced_guarded _ _
  · rfl

theorem balanced_sendToVserial (channel : UInt8) (bytes : List UInt8) :
    Balanced (sendToVserial channel bytes : Code D _) := by
  unfold sendToVserial
  split
  · exact balanced_guarded _ _
  · rfl

theorem balanced_vserialOutboxLen (channel : UInt8) :
    Balanced (vserialOutboxLen channel : Code D _) := by
  unfold vserialOutboxLen
  split
  · exact (balanced_guarded _ _).bind fun _ => rfl
  · rfl

theorem balanced_isChannelOpen (channel : UInt8) :
    Balanced (isChannelOpen channel : Code D _) := by
  unfold isChannelOpen
  split
  · exact (balanced_guarded _ _).bind fun _ => rfl
  · rfl

theorem balanced_setChannelOpen (channel : UInt8) (b : Bool) :
    Balanced (setChannelOpen channel b : Code D _) := by
  unfold setChannelOpen
  split
  · exact balanced_guarded _ _
  · rfl

theorem balanced_waitVserialInbox (channel : UInt8) :
    Balanced (waitVserialInbox channel : Code D _) := by
  unfold waitVserialInbox
  split
  · exact ⟨rfl, fun _ _ => rfl⟩
  · exact ⟨rfl, fun _ _ => rfl⟩

/-- The guard on the drive table is gone before the disk is called. -/
theorem balanced_fetchSector (slot : UInt8) (lsn : Lsn) :
    Balanced (fetchSector slot lsn : Code D _) := by
  refine (balanced_guarded _ _).bind fun disk => ?_
  cases disk with
  | none => rfl
  | some d =>
    refine (balanced_sys _).bind fun r => ?_
    cases r <;> rfl

theorem balanced_storeSector (slot : UInt8) (lsn : Lsn) (data : Sector) :
    Balanced (storeSector slot lsn data : Code D _) := by
  refine (balanced_guarded _ _).bind fun disk => ?_
  cases disk with
  | none => rfl
  | some d =>
    refine (balanced_sys _).bind fun r => ?_
    cases r <;> rfl

theorem balanced_popPadded (channel count : UInt8) :
    Balanced (popPadded channel count : Code D _) := by
  unfold popPadded
  split
  · exact (balanced_guarded _ _).bind fun _ => rfl
  · rfl

theorem handleRead_balanced (extended : Bool) : Balanced (handleRead (D := D) extended).run := by
  refine (balanced_readExact _).run_bind fun hdr => ?_
  refine (balanced_call (balanced_fetchSector _ _)).run_bind fun sector => ?_
  refine (balanced_writeAll _).run_bind fun _ => ?_
  cases extended with
  | true => exact (balanced_readExact _).run_bind fun _ => balanced_writeAll _
  | false => exact balanced_writeAll _

theorem handleWrite_balanced : Balanced (handleWrite (D := D)).run := by
  refine (balanced_readExact _).run_bind fun hdr => (balanced_readExact _).run_bind fun data => ?_
  refine (balanced_readExact _).run_bind fun sum => ?_
  split
  · exact balanced_writeAll _
  · exact (balanced_call (balanced_storeSector _ _ _)).run_bind fun _ => balanced_writeAll _

/-- In a run without it nothing follows the scan. -/
theorem handleSerread_balanced : Balanced (handleSerread (D := D)).run := by
  rw [handleSerread_eq]
  refine ⟨List.forall_mem_nil _, fun _ _ => ⟨List.mem_cons_self, fun _ hscan => ?_⟩⟩
  exact hscan.elim

/-- The guard of SERREADM ends before its reply is written. -/
theorem handleSerreadm_balanced : Balanced (handleSerreadm (D := D)).run := by
  refine (balanced_readExact _).run_bind fun p => ?_
  exact (balanced_call (balanced_popPadded _ _)).run_bind fun _ => balanced_writeAll _

theorem handleSerwritem_balanced : Balanced (handleSerwritem (D := D)).run := by
  refine (balanced_readExact _).run_bind fun hdr => (balanced_readExact _).run_bind fun buf => ?_
  split
  · exact balanced_call (balanced_guarded _ _)
  · rfl

theorem handleSersetstat_balanced : Balanced (handleSersetstat (D := D)).run := by
  refine (balanced_readExact _).run_bind fun hdr => ?_
  split
  · exact balanced_call (balanced_setChannelOpen _ _)
  split
  · exact balanced_call (balanced_setChannelOpen _ _)
  split
  · exact (balanced_readExact _).run_bind fun _ => rfl
  · rfl

theorem handleTime_balanced : Balanced (handleTime (D := D)).run := by
  refine (balanced_call (balanced_sys _)).run_bind fun now => ?_
  cases now with
  | some now => exact balanced_writeAll _
  | none => exact (balanced_call (balanced_sys _)).run_bind fun _ => balanced_writeAll _

theorem dispatch_balanced (d : Decoded) : Balanced (dispatch (D := D) d).run := by
  cases d with
  | unknown b => rfl
  | fastWrite channel =>
    exact (balanced_readExact _).run_bind fun _ => balanced_call (balanced_pushVserial _ _)
  | op o =>
    cases o with
    | read | reread => exact handleRead_balanced false
    | readEx | rereadEx => exact handleRead_balanced true
    | write | rewrite => exact handleWrite_balanced
    | dwInit => exact (balanced_readExact _).run_bind fun _ => balanced_writeAll _
    | time => exact handleTime_balanced
    | getStat | setStat | serGetStat => exact (balanced_readExact _).run_bind fun _ => rfl
    | print =>
      exact (balanced_readExact _).run_bind fun _ => balanced_call (balanced_guarded _ _)
    | printFlush => exact (balanced_call (balanced_guarded _ _)).run_bind fun _ => rfl
    | serRead => exact handleSerread_balanced
    | serReadM => exact handleSerreadm_balanced
    | serInit | serTerm =>
      exact (balanced_readExact _).run_bind fun _ => balanced_call (balanced_setChannelOpen _ _)
    | serWrite =>
      exact (balanced_readExact _).run_bind fun _ => balanced_call (balanced_pushVserial _ _)
    | serWriteM => exact handleSerwritem_balanced
    | serSetStat => exact handleSersetstat_balanced
    | nop | init | term | reset1 | reset2 | reset3 | wirebugMode => rfl

theorem guestOnce_balanced : Balanced (guestOnce (D := D)) := by
  refine Balanced.bind ?_ fun r => balanced_ret _
  rw [runOnce_eq]
  refine ⟨rfl, fun r _ => ?_⟩
  cases r with
  | ok v => exact dispatch_balanced _
  | error e => rfl

theorem inboundOnce_balanced (channel : UInt8) : Balanced (inboundOnce channel : Code D _) := by
  refine (balanced_io _).bind fun r => ?_
  cases r with
  | error e => rfl
  | ok buf =>
    cases buf with
    | nil => rfl
    | cons x buf => exact (balanced_sendToVserial _ _).bind fun _ => rfl

theorem outboundOnce_balanced (channel : UInt8) : Balanced (outboundOnce channel : Code D _) := by
  refine (balanced_drainVserial _).bind fun bytes => ?_
  cases bytes with
  | nil => exact (balanced_waitVserialInbox _).bind fun _ => rfl
  | cons x bytes =>
    refine (balanced_io _).bind fun r => ?_
    cases r <;> rfl

theorem attachSession_balanced (n : Nat) : Balanced (attachSession n : Code D _) := by
  refine (balanced_io _).bind fun r => ?_
  cases r with
  | error e => rfl
  | ok chByte => exact ⟨trivial, fun _ _ => ⟨trivial, fun _ _ => ⟨rfl, fun _ _ => rfl⟩⟩⟩

theorem apiCall_balanced : Balanced (apiCall (D := D)) := by
  refine (balanced_io _).bind fun call => ?_
  cases call with
  | drainVserial channel => exact (balanced_drainVserial _).bind fun _ => rfl
  | sendToVserial channel bytes => exact (balanced_sendToVserial _ _).bind fun _ => rfl
  | vserialOutboxLen channel => exact (balanced_vserialOutboxLen _).bind fun _ => rfl
  | isChannelOpen channel => exact (balanced_isChannelOpen _).bind fun _ => rfl

/-- STATUS holds the inbox while it locks the outbox, in this order. -/
theorem vserialSummary_balanced : Balanced (vserialSummary (D := D)) := by
  refine (balanced_guarded _ _).bind fun opens => ?_
  -- the tree of the two nested scopes
  have htree : (withLock .vserialInbox .exclusive (withLock .vserialOutbox .exclusive do
      let inboxes ← await (.op .inboxLens)
      let outboxes ← await (.op .outboxLens)
      return (List.finRange vserialChannels).map fun i => (i, opens i, inboxes i, outboxes i)) :
        Code D _) =
      Prog.eff (.lock .vserialInbox .exclusive) fun _ =>
        Prog.eff (.lock .vserialOutbox .exclusive) fun _ =>
          Prog.eff (.op .inboxLens) fun inboxes => Prog.eff (.op .outboxLens) fun outboxes =>
            Prog.eff (.unlock .vserialOutbox) fun _ => Prog.eff (.unlock .vserialInbox) fun _ =>
              Prog.ret ((List.finRange vserialChannels).map
                fun i => (i, opens i, inboxes i, outboxes i)) := rfl
  rw [htree]
  simp [Balanced, locking, Op.lock, Lock.rank]

section control

variable [VDisk D] [UnicodeTables]

omit [UnicodeTables] in
theorem mountDsk_balanced (slot : UInt8) (path : Text) (readOnly : Bool) :
    Balanced (mountDsk slot path readOnly : Code D _) := by
  refine (balanced_sys _).bind fun r => ?_
  cases r with
  | ok disk => exact (balanced_guarded _ _).bind fun _ => rfl
  | error e => rfl

theorem controlMount_balanced (fields : List Text) :
    Balanced (controlMount fields : Code D _) := by
  unfold controlMount
  split
  · split
    · refine (mountDsk_balanced _ _ _).bind fun r => ?_
      cases r <;> rfl
    · rfl
  · rfl

omit [VDisk D] in
theorem controlUnmount_balanced (fields : List Text) :
    Balanced (controlUnmount fields : Code D _) := by
  unfold controlUnmount
  split
  · split
    · exact (balanced_guarded _ _).bind fun _ => rfl
    · rfl
  · rfl

omit [UnicodeTables] in
theorem controlStatus_balanced : Balanced (controlStatus (D := D)) := by
  refine Balanced.bind ?_ fun drives => vserialSummary_balanced.bind fun channels => rfl
  exact (balanced_guarded _ _).bind fun _ => rfl

theorem handleControlCommand_balanced (line : Text) :
    Balanced (handleControlCommand line : Code D _) := by
  unfold handleControlCommand
  split
  · rfl
  · dsimp only
    split
    · exact controlMount_balanced _
    split
    · exact controlUnmount_balanced _
    split
    · exact controlStatus_balanced
    split <;> rfl

theorem controlOnce_balanced : Balanced (controlOnce (D := D)) := by
  refine (balanced_io _).bind fun r => ?_
  cases r with
  | error e => rfl
  | ok line =>
    cases line with
    | none => rfl
    | some line =>
      dsimp only
      split
      · rfl
      · refine (handleControlCommand_balanced _).bind fun response => ?_
        refine (balanced_io _).bind fun r => ?_
        cases r with
        | error e => rfl
        | ok u =>
          dsimp only
          split <;> rfl

theorem body_balanced (t : Tid) : Balanced (body (D := D) t) := by
  cases t with
  | guest n => exact guestOnce_balanced
  | attach n => exact attachSession_balanced n
  | attachIn n channel => exact inboundOnce_balanced channel
  | attachOut n channel => exact outboundOnce_balanced channel
  | control n => exact controlOnce_balanced
  | api n => exact apiCall_balanced

/-! ## Section 3: Runs -/

/-- The lock discipline, for all tasks of the system. -/
def lockDiscipline (env : Env D F N) : Discipline (system env) (List Lock) where
  toProtocol := locking
  off        := []
  gone       := []
  enter      := fun _ => []
  leave      := fun _ _ held => held = []
  body_obeys := body_balanced

/-- Every guard that exists belongs to the list of its task. -/
def Accounted (g : Tid → List Lock) (w : World D F N) : Prop :=
  ∀ t l m, (t, m) ∈ w.holders l → l ∈ g t

omit [VDisk D] [UnicodeTables] in
/-- A task without locks may forget its list. -/
theorem Accounted.update {g : Tid → List Lock} {w : World D F N} (h : Accounted g w) {t : Tid}
    (ht : g t = []) : Accounted (Function.update g t []) w := by
  intro u l m hmem
  by_cases hu : u = t
  · subst hu
    have := h u l m hmem
    rw [ht] at this
    cases this
  · rw [Function.update_of_ne hu]
    exact h u l m hmem

/-- The condition on runs: no SERREAD looks at the queues. -/
def noSerread (_ : SysConfig D F N) (l : SysLabel D) : Prop :=
  match l.2 with
  | ⟨.op .outboxScan, _⟩ => False
  | _ => True

omit [VDisk D] [UnicodeTables] in
/-- Taking and dropping a guard is accounted for; nothing else makes one. -/
theorem accounted_ready {env : Env D F N} {g : Tid → List Lock} {t : Tid} {e : Eff D}
    {w w' : World D F N} {r : e.Res} (h : Accounted g w) (hpoll : poll env t e w (.ready r) w') :
    Accounted (Function.update g t (locking.next (g t) e r)) w' := by
  -- an effect that leaves the guards and the list alone
  have hsame : w'.holders = w.holders → locking.next (g t) e r = g t →
      Accounted (Function.update g t (locking.next (g t) e r)) w' := by
    intro hw hnext u l m hmem
    rw [hnext, Function.update_eq_self]
    rw [hw] at hmem
    exact h u l m hmem
  cases e with
  | lock l m =>
    rcases hpoll with ⟨hpending, _⟩ | ⟨_, _, rfl⟩
    · cases hpending
    intro u l' m' hmem
    by_cases hu : u = t
    · subst hu
      rw [Function.update_self]
      by_cases hl : l' = l
      · subst hl
        exact List.mem_cons_self
      · have hmem' : (u, m') ∈ Function.update w.holders l ((u, m) :: w.holders l) l' := hmem
        rw [Function.update_of_ne hl] at hmem'
        exact List.mem_cons_of_mem _ (h u l' m' hmem')
    · rw [Function.update_of_ne hu]
      by_cases hl : l' = l
      · subst hl
        have hmem' : (u, m') ∈ Function.update w.holders l' ((t, m) :: w.holders l') l' := hmem
        rw [Function.update_self] at hmem'
        rcases List.mem_cons.mp hmem' with heq | hold
        · cases heq
          exact absurd rfl hu
        · exact h u l' m' hold
      · have hmem' : (u, m') ∈ Function.update w.holders l ((t, m) :: w.holders l) l' := hmem
        rw [Function.update_of_ne hl] at hmem'
        exact h u l' m' hmem'
  | unlock l =>
    obtain ⟨_, rfl⟩ := hpoll
    intro u l' m' hmem
    by_cases hl : l' = l
    · subst hl
      have hmem' : (u, m') ∈ Function.update w.holders l' ((w.holders l').filter (·.1 ≠ t)) l' :=
        hmem
      rw [Function.update_self, List.mem_filter] at hmem'
      have hu : u ≠ t := by simpa using hmem'.2
      rw [Function.update_of_ne hu]
      exact h u l' m' hmem'.1
    · have hmem' : (u, m') ∈ Function.update w.holders l ((w.holders l).filter (·.1 ≠ t)) l' :=
        hmem
      rw [Function.update_of_ne hl] at hmem'
      by_cases hu : u = t
      · subst hu
        rw [Function.update_self]
        exact (List.mem_erase_of_ne hl).mpr (h u l' m' hmem')
      · rw [Function.update_of_ne hu]
        exact h u l' m' hmem'
  | _ => exact hsame (poll_ready hpoll).2.1 rfl

theorem lockDiscipline_keeps (env : Env D F N) :
    (lockDiscipline env).Keeps noSerread Accounted where
  start := fun g w t hg hoff _ => hg.update hoff
  again := fun g w t hg hleave => hg.update hleave
  exit := fun g w t r hg hleave => hg.update hleave
  pending := fun g w t e w' hg _ hpoll => by
    intro u l m hmem
    rw [(poll_pending hpoll).2.1] at hmem
    exact hg u l m hmem
  ready := fun c g t e k r w' hg _ _ _ hok hpoll => by
    refine ⟨?_, accounted_ready hg hpoll⟩
    cases e with
    | op o => cases o <;> exact hok
    | _ => trivial
  ambient := fun g w w' hg hw => by
    obtain ⟨n, _, rfl⟩ := hw
    exact hg

/-- Task `t` does not depend on a peer: it can take a step that is no
    transport I/O, or it waits for a lock whose holders do not. -/
inductive CanRun (env : Env D F N) (c : SysConfig D F N) : Tid → Prop where
  | now : ∀ t e r c', Step (system env) c (some (t, ⟨e, r⟩)) c' → (∀ i, e ≠ .io i) → CanRun env c t
  | after : ∀ t l m k, c.task t = .live (.eff (.lock l m) k) →
      (∀ u m', (u, m') ∈ c.world.holders l → CanRun env c u) → CanRun env c t

/-- A poll that completes lets the task run. -/
theorem CanRun.of_ready {env : Env D F N} {c : SysConfig D F N} {t : Tid} {e : Eff D}
    {k : e.Res → Code D (Flow Exit)} {r : e.Res} {w : World D F N}
    (htask : c.task t = .live (.eff e k)) (hpoll : poll env t e c.world (.ready r) w)
    (he : ∀ i, e ≠ .io i) : CanRun env c t :=
  have hstep : Step (system env) c (some (t, ⟨e, r⟩)) (c.put t (.live (k r)) w) :=
    Step.ready t e k r w htask hpoll
  CanRun.now t e r _ hstep he

/-- No task is stalled by another one's peer. -/
structure Unstalled (env : Env D F N) (c : SysConfig D F N) : Prop where
  /-- A task that is suspended on its transport holds no lock. -/
  transport : ∀ t i k, c.task t = .live (.eff (.io i) k) → ∀ l m, (t, m) ∉ c.world.holders l
  /-- A lock is taken after those that come before it in the fixed order. -/
  ordered : ∀ t l m k, c.task t = .live (.eff (.lock l m) k) →
    ∀ l' m', (t, m') ∈ c.world.holders l' → l'.rank < l.rank
  /-- The holders of a lock do not depend on a peer. -/
  waits : ∀ l u m, (u, m) ∈ c.world.holders l → CanRun env c u

/-- What the ghost lists say about a task that holds a lock: it is at an
    effect that it may perform with that lock. -/
theorem holder_live {env : Env D F N} {c : SysConfig D F N} {g : Tid → List Lock}
    (hg : (lockDiscipline env).Holds Accounted c g) {u : Tid} {l : Lock} {m : Mode}
    (hmem : (u, m) ∈ c.world.holders l) :
    ∃ e k, c.task u = .live (.eff e k) ∧ locking.allows (g u) e ∧ l ∈ g u := by
  have hl := hg.1 u l m hmem
  have hfit := hg.2 u
  cases htask : c.task u with
  | idle =>
    rw [htask] at hfit
    rw [show g u = [] from hfit] at hl
    cases hl
  | exited r =>
    rw [htask] at hfit
    rw [show g u = [] from hfit] at hl
    cases hl
  | live p =>
    rw [htask] at hfit
    cases p with
    | ret a =>
      rw [show g u = [] from hfit] at hl
      cases hl
    | eff e k => exact ⟨e, k, rfl, hfit.1, hl⟩

/-- The holders of a lock can run, by induction on the locks above it. -/
theorem holder_canRun {env : Env D F N} {c : SysConfig D F N} {g : Tid → List Lock}
    (hg : (lockDiscipline env).Holds Accounted c g) (n : Nat) :
    ∀ l : Lock, 5 - l.rank ≤ n → ∀ u m, (u, m) ∈ c.world.holders l → CanRun env c u := by
  -- a holder that waits for a lock waits for a later one, so the ranks bound the chain
  induction n with
  | zero =>
    intro l hl
    have := l.rank_lt
    omega
  | succ n ih =>
    intro l hl u m hmem
    obtain ⟨e, k, htask, hallow, hmemg⟩ := holder_live hg hmem
    have hne : g u ≠ [] := List.ne_nil_of_mem hmemg
    cases e with
    | lock l' m' =>
      have hrank : l.rank < l'.rank := hallow l hmemg
      exact CanRun.after u l' m' k htask fun v m'' hv => ih l' (by omega) v m'' hv
    | unlock l' =>
      exact CanRun.of_ready (r := ()) htask ⟨rfl, rfl⟩ nofun
    | op o =>
      exact CanRun.of_ready htask ⟨rfl, rfl⟩ nofun
    | notifyOne ch =>
      exact CanRun.of_ready (r := ()) htask ⟨rfl, rfl⟩ nofun
    | spawn v =>
      exact CanRun.of_ready (r := ()) htask ⟨rfl, rfl⟩ nofun
    -- a holder never waits for anything else: it would hold nothing
    | io i => exact absurd hallow hne
    | sys y => exact absurd hallow hne
    | notified ch => exact absurd hallow hne
    | never => exact absurd hallow hne
    | select v v' => exact absurd hallow hne

/-- **One stalled peer cannot stall the others**, in runs without SERREAD. -/
theorem no_stall (env : Env D F N) (s : Server D) (f : F) (net : N) {c : SysConfig D F N}
    {tr : List (SysLabel D)}
    (hrun : Run (system env) noSerread (Config.initial (World.initial s f net)) tr c) :
    Unstalled env c := by
  have h₀ := (lockDiscipline env).holds_initial (J := Accounted)
    (w := World.initial s f net) (fun t l m hmem => absurd hmem List.not_mem_nil)
  obtain ⟨g, hg⟩ := (lockDiscipline env).run_invariant (lockDiscipline_keeps env) hrun h₀
  have hallow : ∀ t e k, c.task t = .live (.eff e k) → locking.allows (g t) e := by
    intro t e k htask
    have hfit := hg.2 t
    rw [htask] at hfit
    exact hfit.1
  refine ⟨?_, ?_, ?_⟩
  · intro t i k htask l m hmem
    have hl := hg.1 t l m hmem
    rw [show g t = [] from hallow t _ k htask] at hl
    cases hl
  · intro t l m k htask l' m' hmem
    exact hallow t _ k htask l' (hg.1 t l' m' hmem)
  · intro l u m hmem
    exact holder_canRun hg (5 - l.rank) l le_rfl u m hmem

end control

/-! ## Section 4: Peers that do not read -/

/-- The peer of every task sends its bytes and never takes a reply. -/
def deafAnswer (t : Tid) : (i : Io) → (Tid → Peer) → Poll i.Res × (Tid → Peer)
  | .writeAll _, peers => (.pending, peers)
  | i, peers => (((peers t).answer i).1, Function.update peers t ((peers t).answer i).2)

def deaf : Answers Unit Unit (Tid → Peer) where
  net := deafAnswer
  sys := fun y f => (y.answer, f)

/-- A server without disks whose guests have sent these bytes. -/
def deafStart (sent : Nat → List UInt8) : SysConfig Unit Unit (Tid → Peer) :=
  Config.initial (World.initial (Server.new Unit) () fun t => match t with
    | .guest n => .sending (sent n)
    | _ => .sending [])

/-- The state after some turns of the guests. -/
def deafPlay (sent : Nat → List UInt8) (guests : List Nat) : SysConfig Unit Unit (Tid → Peer) :=
  @Answers.play Unit Unit (Tid → Peer) deaf noDisk asciiTables (deafStart sent) (guests.map .guest)

/-- DWINIT on one session, PRINT on two others. -/
def initAndPrint : Nat → List UInt8
  | 0 => [0x5A, 0x00]
  | _ => [0x50, 0x41]

/-- The first guest does not take the reply to its DWINIT.  Meanwhile the
    second one has the print buffer, and the third one waits for it. -/
theorem no_stall_print :
    let c := deafPlay initAndPrint [0, 0, 0, 1, 1, 1, 1, 2, 2, 2, 2]
    (∃ k, c.task (.guest 0) = .live (.eff (.io (.writeAll [dwinitResponse])) k)) ∧
      (∃ k, c.task (.guest 2) = .live (.eff (.lock .printBuffer .exclusive) k)) ∧
      c.world.holders .printBuffer = [(.guest 1, .exclusive)] ∧
      @Unstalled Unit Unit (Tid → Peer) noDisk asciiTables deaf.env c := by
  intro c
  have hmeets : @scheduleMeets _ _ _ _ _ _ (plainSystem deaf.env)
      deaf.poll Answers.start noSerread (deafStart initAndPrint)
      ([0, 0, 0, 1, 1, 1, 1, 2, 2, 2, 2].map .guest) := by
    -- none of the turns is the scan of a SERREAD
    repeat' constructor
  have hrun : Run (plainSystem deaf.env) noSerread
      (deafStart initAndPrint) _ c :=
    run_schedule deaf.poll_spec deaf.start_spec _ _ hmeets
  exact ⟨⟨_, rfl⟩, ⟨_, rfl⟩, rfl,
    @no_stall Unit Unit (Tid → Peer) noDisk asciiTables deaf.env _ _ _ _ _ hrun⟩

/-- Two guests poll with SERREAD and the first one does not take its reply:
    it keeps the guard of the outbox, it cannot take a step, and the second
    one waits for it. -/
theorem serread_stalls : ∃ (tr : List (SysLabel Unit)) (c : SysConfig Unit Unit (Tid → Peer)),
    Run (plainSystem deaf.env) anyStep
      (deafStart fun _ => [0x43]) tr c ∧
    (∃ k, c.task (.guest 0) = .live (.eff (.io (.writeAll [0x00, 0x00])) k)) ∧
    (∃ k, c.task (.guest 1) = .live (.eff (.lock .vserialOutbox .exclusive) k)) ∧
    c.world.holders .vserialOutbox = [(.guest 0, .exclusive)] ∧
    (∀ ev c', ¬ Step (plainSystem deaf.env) c
      (some (.guest 0, ev)) c') ∧
    ¬ @Unstalled Unit Unit (Tid → Peer) noDisk asciiTables deaf.env c := by
  let c := deafPlay (fun _ => [0x43]) [0, 0, 0, 0, 1, 1, 1]
  have hrun : Run (plainSystem deaf.env) anyStep
      (deafStart fun _ => [0x43]) _ c :=
    @Answers.play_run Unit Unit (Tid → Peer) deaf noDisk asciiTables _ _
  obtain ⟨k, hwriting⟩ : ∃ k, c.task (.guest 0) =
      .live (.eff (.io (.writeAll [0x00, 0x00])) k) := ⟨_, rfl⟩
  have hheld : c.world.holders .vserialOutbox = [(.guest 0, .exclusive)] := rfl
  refine ⟨_, c, hrun, ⟨k, hwriting⟩, ⟨_, rfl⟩, hheld, ?_, ?_⟩
  · intro ev c' hstep
    cases hstep with
    | ready t e k' r w' htask hpoll =>
      rw [hwriting] at htask
      cases htask
      -- a poll of the write stays pending
      obtain ⟨n, ⟨hpending, -⟩, -⟩ := hpoll
      cases hpending
  · intro h
    have htransport := @Unstalled.transport _ _ _ noDisk asciiTables _ _ h
    apply htransport (.guest 0) _ k hwriting .vserialOutbox .exclusive
    rw [hheld]
    exact List.mem_singleton.mpr rfl

end DriveWire
