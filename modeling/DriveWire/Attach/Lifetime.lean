import DriveWire.Server.Script
import DriveWire.Server.Sessions
import DriveWire.Vserial.Fifo

/-! # Lifetimes of Attach Sessions

    `handle_attach` spawns two tasks and returns when one of them has exited.
    Dropping a `JoinHandle` does not cancel its task, so the other one goes
    on: an outbound task still drains its channel, an inbound task still
    forwards what its client sends.

    Section 4 has the runs in which nothing of this matters: no bytes arrive
    at a channel while an outbound task of an ended session is there to take
    them, and the clients of ended sessions send nothing more. -/

namespace DriveWire

open Async Server

variable {D F N : Type}

/-! ## Section 1: The lives of the tasks of a session -/

inductive Life where
  | off       : Life
  | gone      : Life
  /-- No part of an attach session. -/
  | plain     : Life
  /-- Session `n` before its channel byte. -/
  | waiting   : Nat → Life
  /-- Session `n` in `handle_attach`, up to the `select!`. -/
  | selecting : Nat → UInt8 → Life
  /-- Session `n` after `handle_attach`. -/
  | returned  : Life
  /-- An inbound task without bytes. -/
  | reading   : UInt8 → Life
  /-- An inbound task between a read and its append. -/
  | holding   : UInt8 → Life
  /-- An outbound task. -/
  | looping   : UInt8 → Life
  /-- A spawned task that has left its loop. -/
  | closed    : Life

namespace Life

/-- The life in which a task starts an iteration. -/
def enter : Tid → Life
  | .attach n => .waiting n
  | .attachIn _ channel => .reading channel
  | .attachOut _ channel => .looping channel
  | _ => .plain

/-- The life in which it leaves its loop. -/
def last : Tid → Life
  | .attach _ => .returned
  | .attachIn _ _ | .attachOut _ _ => .closed
  | _ => .plain

/-- The lives of each kind of task. -/
def Suits (t : Tid) : Life → Prop
  | .off | .gone => True
  | .plain => enter t = .plain
  | .waiting n | .selecting n _ => t = .attach n
  | .returned => ∃ n, t = .attach n
  | .reading channel | .holding channel => enter t = .reading channel
  | .looping channel => enter t = .looping channel
  | .closed => last t = .closed

/-- How an iteration ends.  A session has only one. -/
def Leaves (t : Tid) : Flow Exit → Life → Prop
  | .again, s => s = enter t ∧ ∀ n, t ≠ .attach n
  | .done _, s => s = last t

/-- `handle_attach` is over. -/
def Ended (s : Life) : Prop := s = .returned ∨ s = .gone

/-- The task will go round its loop again. -/
def Unfinished (s : Life) : Prop := s ≠ .gone ∧ s ≠ .closed

/-- What a read makes of an inbound task. -/
def afterRead (channel : UInt8) : Except IoError (List UInt8) → Life
  | .ok (_ :: _) => if channel.toNat < vserialChannels then .holding channel else .reading channel
  | _ => .closed

end Life

/-- A task that belongs to a session, with the session and the channel. -/
def Tid.child : Tid → Option (Nat × UInt8)
  | .attachIn n channel | .attachOut n channel => some (n, channel)
  | _ => none

/-- How the effects of a task move its life. -/
def lives : Protocol (Eff D) Eff.Res Life where
  allows := fun s e =>
    match s, e with
    | .off, _ | .gone, _ | .returned, _ | .closed, _ => False
    | .plain, .spawn _ | .plain, .select _ _ => False
    | .plain, _ => True
    | .waiting _, .io (.readExact _) => True
    | .selecting n channel, .spawn u => u.child = some (n, channel)
    | .selecting n channel, .select u v => u = .attachIn n channel ∧ v = .attachOut n channel
    | .reading _, .io (.read _) | .reading _, .unlock _ => True
    | .holding _, .lock _ _ => True
    | .holding channel, .op (.outboxExtend c _) => c.val = channel.toNat
    | .looping _, .lock _ _ | .looping _, .unlock _ => True
    | .looping channel, .op (.inboxDrain c) => c.val = channel.toNat
    | .looping _, .notified _ | .looping _, .never | .looping _, .io (.writeAll _) => True
    | _, _ => False
  admits := fun _ _ _ => True
  next := fun s e =>
    match s, e with
    | .waiting n, .io (.readExact _) => fun r =>
      match r with
      | .ok chByte => .selecting n (chByte.toList.headD 0)
      | .error _ => .returned
    | .selecting _ _, .select _ _ => fun _ => .returned
    | .reading channel, .io (.read _) => Life.afterRead channel
    | .holding channel, .op (.outboxExtend _ _) => fun _ => .reading channel
    | .looping channel, .io (.writeAll _) => fun r =>
      match r with
      | .ok () => .looping channel
      | .error _ => .closed
    | s, _ => fun _ => s

/-! ## Section 2: Every loop body -/

/-- Code that neither spawns nor selects stays in life `plain`. -/
theorem only_lives {A : Eff D → Prop} (hA : ∀ e, A e → (∀ u, e ≠ .spawn u) ∧ ∀ u v, e ≠ .select u v)
    {t : Tid} (ht : Life.enter t = .plain) (hlast : Life.last t = .plain)
    {c : Code D (Flow Exit)} (hc : c.Only A) :
    c.Obeys lives (Life.enter t) (Life.Leaves t) := by
  rw [ht]
  refine (hc.obeys (s := Life.plain) fun e he => ?_).mono fun flow s hs => ?_
  · cases e with
    | spawn u => exact absurd rfl ((hA _ he).1 u)
    | select u v => exact absurd rfl ((hA _ he).2 u v)
    | _ => exact ⟨trivial, fun _ _ => rfl⟩
  · subst hs
    cases flow with
    | again =>
      refine ⟨ht.symm, fun n hn => ?_⟩
      subst hn
      cases ht
    | done x => exact hlast.symm

theorem attachSession_lives (n : Nat) :
    (attachSession (D := D) n).Obeys lives (.waiting n) (Life.Leaves (.attach n)) := by
  refine ⟨trivial, fun r _ => ?_⟩
  cases r with
  | error e => exact rfl
  | ok chByte =>
    have hbyte : chByte.toList.headD 0 = byte0 chByte := by
      rw [toList_one]
      rfl
    refine ⟨?_, fun _ _ => ⟨?_, fun _ _ => ⟨?_, fun _ _ => rfl⟩⟩⟩
    · show (Tid.attachIn n (byte0 chByte)).child = some (n, chByte.toList.headD 0)
      rw [hbyte]
      rfl
    · show (Tid.attachOut n (byte0 chByte)).child = some (n, chByte.toList.headD 0)
      rw [hbyte]
      rfl
    · show Tid.attachIn n (byte0 chByte) = .attachIn n (chByte.toList.headD 0) ∧
        Tid.attachOut n (byte0 chByte) = .attachOut n (chByte.toList.headD 0)
      rw [hbyte]
      exact ⟨rfl, rfl⟩

theorem inboundOnce_lives (n : Nat) (channel : UInt8) :
    (inboundOnce channel : Code D _).Obeys lives (.reading channel)
      (Life.Leaves (.attachIn n channel)) := by
  refine ⟨trivial, fun r _ => ?_⟩
  cases r with
  | error e => exact rfl
  | ok buf =>
    cases buf with
    | nil => exact rfl
    | cons x buf =>
      show Prog.Obeys lives _ (Life.afterRead channel (.ok (x :: buf))) _
      by_cases h : channel.toNat < vserialChannels
      · rw [Life.afterRead, if_pos h]
        simp only [sendToVserial, dif_pos h]
        exact ⟨trivial, fun _ _ => ⟨rfl, fun _ _ =>
          ⟨trivial, fun _ _ => ⟨rfl, fun _ h => by cases h⟩⟩⟩⟩
      · rw [Life.afterRead, if_neg h]
        simp only [sendToVserial, dif_neg h]
        exact ⟨rfl, fun _ h => by cases h⟩

theorem outboundOnce_lives (n : Nat) (channel : UInt8) :
    (outboundOnce channel : Code D _).Obeys lives (.looping channel)
      (Life.Leaves (.attachOut n channel)) := by
  have hdrain : (drainVserial channel : Code D _).Obeys lives (.looping channel)
      (fun _ s => s = .looping channel) := by
    unfold drainVserial
    split
    · exact ⟨trivial, fun _ _ => ⟨rfl, fun _ _ => ⟨trivial, fun _ _ => rfl⟩⟩⟩
    · rfl
  refine hdrain.bind fun bytes s hs => ?_
  subst hs
  cases bytes with
  | nil =>
    refine Prog.Obeys.bind (M := fun _ s => s = .looping channel) ?_ fun _ s hs => ⟨hs, nofun⟩
    unfold waitVserialInbox
    split
    · exact ⟨trivial, fun _ _ => rfl⟩
    · exact ⟨trivial, fun _ _ => rfl⟩
  | cons x bytes =>
    refine ⟨trivial, fun r _ => ?_⟩
    cases r with
    | ok u => exact ⟨rfl, nofun⟩
    | error e => exact rfl

theorem GuestEff.stays {e : Eff D} (h : GuestEff e) :
    (∀ u, e ≠ .spawn u) ∧ ∀ u v, e ≠ .select u v := by
  cases e with
  | spawn u => cases h
  | select u v => cases h
  | _ => exact ⟨nofun, nofun⟩

theorem HostEff.stays {e : Eff D} (h : HostEff e) :
    (∀ u, e ≠ .spawn u) ∧ ∀ u v, e ≠ .select u v := by
  cases e with
  | spawn u => cases h
  | select u v => cases h
  | _ => exact ⟨nofun, nofun⟩

theorem body_lives [VDisk D] [UnicodeTables] (t : Tid) :
    (body (D := D) t).Obeys lives (Life.enter t) (Life.Leaves t) := by
  cases t with
  | guest n => exact only_lives (fun _ => GuestEff.stays) rfl rfl guestOnce_only
  | attach n => exact attachSession_lives n
  | attachIn n channel => exact inboundOnce_lives n channel
  | attachOut n channel => exact outboundOnce_lives n channel
  | control n => exact only_lives (fun _ => HostEff.stays) rfl rfl controlOnce_host
  | api n => exact only_lives (fun _ => HostEff.stays) rfl rfl apiCall_host

/-! ## Section 3: The invariant -/

/-- An outbound task that has outlived its session. -/
def Orphan (g : Tid → Life) (w : World D F N) (n : Nat) (channel : UInt8) : Prop :=
  (g (.attach n)).Ended ∧ .attachOut n channel ∈ w.spawned ∧ (g (.attachOut n channel)).Unfinished

/-- What holds of lives and world in good runs. -/
structure Orderly (g : Tid → Life) (w : World D F N) : Prop where
  suits : ∀ t, (g t).Suits t
  /-- Tasks are spawned by the session that they belong to. -/
  spawned : ∀ u n channel, u.child = some (n, channel) → u ∈ w.spawned →
    g (.attach n) = .selecting n channel ∨ (g (.attach n)).Ended
  started : ∀ u x, u.child = some x → g u ≠ .off → u ∈ w.spawned
  /-- There is nothing to take for an orphan. -/
  reader : ∀ n channel, Orphan g w n channel →
    ∀ c : Channel, c.val = channel.toNat → w.server.vserialInbox c = []
  /-- The inbound task of an ended session has nothing to append. -/
  writer : ∀ n channel channel', (g (.attach n)).Ended → g (.attachIn n channel) ≠ .holding channel'

variable {g : Tid → Life} {w w' : World D F N} {t : Tid}

/-- The life of a child tells whose child it is. -/
theorem Life.Suits.child {s : Life} (h : s.Suits t) (hs : s ≠ .off ∧ s ≠ .gone ∧ s ≠ .plain)
    (ht : ∀ n, t ≠ .attach n) : ∃ x, t.child = some x := by
  cases t with
  | attach n => exact absurd rfl (ht n)
  | attachIn n channel => exact ⟨_, rfl⟩
  | attachOut n channel => exact ⟨_, rfl⟩
  | _ =>
    cases s with
    | off => exact absurd rfl hs.1
    | gone => exact absurd rfl hs.2.1
    | plain => exact absurd rfl hs.2.2
    | returned => obtain ⟨n, hn⟩ := h; cases hn
    | _ => cases h

/-- **Step rule for tasks that are not sessions.** -/
theorem Orderly.move (h : Orderly g w) (ht : ∀ n, t ≠ .attach n) {s : Life} (hsuits : s.Suits t)
    (hstarted : ∀ x, t.child = some x → t ∈ w.spawned) (hspawned : w'.spawned = w.spawned)
    (hunfinished : s.Unfinished → (g t).Unfinished)
    (hholding : ∀ n channel channel', t = .attachIn n channel → s = .holding channel' →
      g t = .holding channel' ∨ ¬ (g (.attach n)).Ended)
    (hinbox : ∀ n channel, Orphan g w n channel → ∀ c : Channel, c.val = channel.toNat →
      w.server.vserialInbox c = [] → w'.server.vserialInbox c = []) :
    Orderly (Function.update g t s) w' := by
  have hattach : ∀ n, Function.update g t s (.attach n) = g (.attach n) :=
    fun n => Function.update_of_ne (Ne.symm (ht n)) _ _
  -- one goal for each field; the lives of the sessions are those from before
  refine ⟨fun u => ?_, fun u n channel hu hmem => ?_, fun u x hu hoff => ?_,
    fun n channel horphan c hc => ?_, fun n channel channel' hended => ?_⟩
  · by_cases hut : u = t
    · subst hut
      rwa [Function.update_self]
    · rw [Function.update_of_ne hut]
      exact h.suits u
  · rw [hattach]
    exact h.spawned u n channel hu (hspawned ▸ hmem)
  · rw [hspawned]
    by_cases hut : u = t
    · subst hut
      exact hstarted x hu
    · rw [Function.update_of_ne hut] at hoff
      exact h.started u x hu hoff
  · obtain ⟨hended, hmem, hunf⟩ := horphan
    rw [hattach] at hended
    -- an orphan after the step was one before it: no life has become unfinished
    have hbefore : Orphan g w n channel := by
      refine ⟨hended, hspawned ▸ hmem, ?_⟩
      by_cases hut : Tid.attachOut n channel = t
      · subst hut
        rw [Function.update_self] at hunf
        exact hunfinished hunf
      · rwa [Function.update_of_ne hut] at hunf
    exact hinbox n channel hbefore c hc (h.reader n channel hbefore c hc)
  · rw [hattach] at hended
    by_cases hut : Tid.attachIn n channel = t
    · subst hut
      rw [Function.update_self]
      intro hs
      rcases hholding n channel channel' rfl hs with hbefore | hbefore
      · exact h.writer n channel channel' hended hbefore
      · exact hbefore hended
    · rw [Function.update_of_ne hut]
      exact h.writer n channel channel' hended

/-- The same for a step that changes neither the life nor the inboxes. -/
theorem Orderly.frame (h : Orderly g w) (hspawned : w'.spawned = w.spawned)
    (hinbox : ∀ n channel, Orphan g w n channel → ∀ c : Channel, c.val = channel.toNat →
      w.server.vserialInbox c = [] → w'.server.vserialInbox c = []) : Orderly g w' where
  suits := h.suits
  spawned := fun u n channel hu hmem => h.spawned u n channel hu (hspawned ▸ hmem)
  started := fun u x hu hoff => hspawned ▸ h.started u x hu hoff
  reader := fun n channel horphan c hc => by
    have hbefore : Orphan g w n channel := ⟨horphan.1, hspawned ▸ horphan.2.1, horphan.2.2⟩
    exact hinbox n channel hbefore c hc (h.reader n channel hbefore c hc)
  writer := h.writer

/-- Session `n` before `handle_attach` has no tasks. -/
theorem Orderly.no_child (h : Orderly g w) {n : Nat}
    (hn : g (.attach n) = .off ∨ g (.attach n) = .waiting n) (u : Tid) (channel : UInt8)
    (hu : u.child = some (n, channel)) : u ∉ w.spawned ∧ g u = .off := by
  have hmem : u ∉ w.spawned := by
    intro hmem
    rcases h.spawned u n channel hu hmem with h | h | h <;> rcases hn with hn | hn <;>
      rw [hn] at h <;> cases h
  refine ⟨hmem, ?_⟩
  by_contra hoff
  exact hmem (h.started u _ hu hoff)

/-- **Step rule for sessions.** -/
theorem Orderly.session (h : Orderly g w) {n : Nat} {s : Life} (hsuits : s.Suits (.attach n))
    (hspawned : ∀ u m channel, u.child = some (m, channel) → u ∈ w'.spawned → u ∈ w.spawned ∨
      (m = n ∧ s = .selecting n channel))
    (hgrow : ∀ u, u ∈ w.spawned → u ∈ w'.spawned) (hserver : w'.server = w.server)
    (hown : ∀ u channel, u.child = some (n, channel) → u ∈ w.spawned →
      s = .selecting n channel ∨ s.Ended)
    (hreader : s.Ended → ∀ channel, .attachOut n channel ∈ w.spawned →
      (g (.attachOut n channel)).Unfinished →
      ∀ c : Channel, c.val = channel.toNat → w.server.vserialInbox c = [])
    (hwriter : s.Ended → ∀ channel channel', g (.attachIn n channel) ≠ .holding channel') :
    Orderly (Function.update g (.attach n) s) w' := by
  have hother : ∀ u, u ≠ Tid.attach n → Function.update g (.attach n) s u = g u :=
    fun u hu => Function.update_of_ne hu _ _
  have hself : Function.update g (.attach n) s (.attach n) = s := Function.update_self ..
  -- one goal for each field; the lives of the children are those from before
  refine ⟨fun u => ?_, fun u m channel hu hmem => ?_, fun u x hu hoff => ?_,
    fun m channel horphan c hc => ?_, fun m channel channel' hended => ?_⟩
  · by_cases hun : u = .attach n
    · subst hun
      rwa [hself]
    · rw [hother u hun]
      exact h.suits u
  · by_cases hm : m = n
    · subst hm
      rw [hself]
      rcases hspawned u m channel hu hmem with hold | ⟨_, hs⟩
      · exact hown u channel hu hold
      · exact .inl hs
    · rw [hother _ (fun h => hm (Tid.attach.inj h))]
      rcases hspawned u m channel hu hmem with hold | ⟨hmn, _⟩
      · exact h.spawned u m channel hu hold
      · exact absurd hmn hm
  · rw [hother u (by rintro rfl; cases hu)] at hoff
    exact hgrow u (h.started u x hu hoff)
  · obtain ⟨hended, hmem, hunf⟩ := horphan
    rw [hother (.attachOut m channel) nofun] at hunf
    rw [hserver]
    by_cases hm : m = n
    · subst hm
      rw [hself] at hended
      rcases hspawned _ m channel rfl hmem with hold | ⟨_, hs⟩
      · -- the session ends in this step: its outbound task becomes an orphan
        exact hreader hended channel hold hunf c hc
      · rw [hs] at hended
        rcases hended with h | h <;> cases h
    · rw [hother _ (fun h => hm (Tid.attach.inj h))] at hended
      rcases hspawned _ m channel rfl hmem with hold | ⟨hmn, _⟩
      · exact h.reader m channel ⟨hended, hold, hunf⟩ c hc
      · exact absurd hmn hm
  · rw [hother (.attachIn m channel) nofun]
    by_cases hm : m = n
    · subst hm
      rw [hself] at hended
      exact hwriter hended channel channel'
    · rw [hother _ (fun h => hm (Tid.attach.inj h))] at hended
      exact h.writer m channel channel' hended

/-! ## Section 4: Runs -/

/-- The call of `handle_attach` of session `n` has returned. -/
def Returned (cfg : SysConfig D F N) (n : Nat) : Prop :=
  match cfg.task (.attach n) with
  | .exited _ => True
  | .live (.ret _) => True
  | _ => False

/-- The task has not left its loop. -/
def Running : Task (Eff D) Eff.Res Exit → Prop
  | .exited _ => False
  | .live (.ret (.done _)) => False
  | _ => True

/-- An outbound task of session `n` that runs on after `handle_attach`. -/
def OrphanReader (cfg : SysConfig D F N) (n : Nat) (channel : UInt8) : Prop :=
  Returned cfg n ∧ .attachOut n channel ∈ cfg.world.spawned ∧
    Running (cfg.task (.attachOut n channel))

/-- The program is about to append to an outbox. -/
def HoldsBytes : Code D (Flow Exit) → Prop
  | .eff (.op (.outboxExtend _ _)) _ => True
  | .eff (.lock _ _) k => HoldsBytes (k ())
  | _ => False

/-- The condition on runs.  Bytes are appended to an inbox only while no
    orphan reads it; when `handle_attach` returns, its outbound task has left
    its loop or has nothing to take, and its inbound task holds no bytes; and
    from then on the client sends nothing. -/
def undisturbed (cfg : SysConfig D F N) (l : SysLabel D) : Prop :=
  match l with
  | (_, ⟨.op (.inboxPushBack c _), _⟩) =>
    ∀ n channel, c.val = channel.toNat → ¬ OrphanReader cfg n channel
  | (_, ⟨.op (.inboxExtend c bs), _⟩) =>
    bs = [] ∨ ∀ n channel, c.val = channel.toNat → ¬ OrphanReader cfg n channel
  | (_, ⟨.select u v, _⟩) =>
    (∀ c, v.reads = some c → Running (cfg.task v) → cfg.world.server.vserialInbox c = []) ∧
      ∀ p, cfg.task u = .live p → ¬ HoldsBytes p
  | (.attachIn n _, ⟨.io (.read _), r⟩) =>
    Returned cfg n → ∀ bytes, r = .ok bytes → bytes = []
  | _ => True

/-- The step is one of a task that session `n` spawned, and it removes bytes
    from an inbox or appends bytes to an outbox. -/
def Steals (n : Nat) : SysLabel D → Prop
  | (.attachOut m _, ⟨.op (.inboxDrain _), bytes⟩) => m = n ∧ bytes ≠ []
  | (.attachIn m _, ⟨.op (.outboxExtend _ bs), _⟩) => m = n ∧ bs ≠ []
  | _ => False

/-- A queue that a scope does not append to stays empty. -/
theorem op_inbox_empty {c : Channel} {o : Op D} {s : Server D} (hin : inboxIn c o = [])
    (h : s.vserialInbox c = []) : (o.run s).2.vserialInbox c = [] := by
  have hconserve := run_inbox c o s
  rw [h, hin] at hconserve
  exact (List.append_eq_nil_iff.mp hconserve.symm).2

theorem Life.enter_ne (t : Tid) (channel : UInt8) :
    Life.holding channel ≠ Life.enter t ∧ Life.holding channel ≠ Life.last t ∧
      Life.gone ≠ Life.enter t ∧ Life.gone ≠ Life.last t := by
  cases t <;> exact ⟨nofun, nofun, nofun, nofun⟩

/-- A task that is not a session starts. -/
theorem Orderly.starts (hg : Orderly g w) (hoff : g t = .off) (ht : ∀ n, t ≠ .attach n)
    (hmay : ∀ x, t.child = some x → t ∈ w.spawned) :
    Orderly (Function.update g t (Life.enter t)) w := by
  have hsuits : (Life.enter t).Suits t := by
    cases t <;> rfl
  have hunfinished : (g t).Unfinished := by
    rw [hoff]
    constructor <;> (intro h; cases h)
  refine hg.move ht hsuits hmay rfl (fun _ => hunfinished) ?_ fun _ _ _ _ _ h => h
  intro _ _ channel' _ hholds
  exact absurd hholds.symm (Life.enter_ne t channel').1

/-- A task that is not a session ends. -/
theorem Orderly.ends (hg : Orderly g w) (hlast : g t = Life.last t) (ht : ∀ n, t ≠ .attach n)
    (hspawned : w'.spawned = w.spawned) (hserver : w'.server = w.server) :
    Orderly (Function.update g t .gone) w' := by
  have hlive : ∀ x, t.child = some x → t ∈ w.spawned := by
    intro x hx
    apply hg.started t x hx
    rw [hlast]
    cases t <;> (intro h; cases h)
  exact hg.move ht trivial hlive hspawned (fun h => absurd rfl h.1) (fun _ _ _ _ h => by cases h)
    fun _ _ _ _ _ h => by rwa [hserver]

/-! ## Section 5: What an outbound task does with its bytes -/

/-- The bytes that an outbound task has drained and those that its client has
    got, and whether a write has failed. -/
structure Forward where
  drained : List UInt8
  sent    : List UInt8
  failed  : Bool

/-- The result of writing `bs`. -/
def Forward.afterWrite (s : Forward) (bs : List UInt8) : Except IoError Unit → Forward
  | .ok () => { s with sent := s.sent ++ bs }
  | .error _ => { s with failed := true }

/-- Drained bytes are written, before anything else is done. -/
def forwarding : Protocol (Eff D) Eff.Res Forward where
  allows := fun s e =>
    s.failed = false ∧
      match e with
      | .unlock _ => True
      | .io (.writeAll bs) => s.drained = s.sent ++ bs
      | _ => s.drained = s.sent
  admits := fun _ _ _ => True
  next := fun s e =>
    match e with
    | .op (.inboxDrain _) => fun bytes => { s with drained := s.drained ++ bytes }
    | .io (.writeAll bs) => s.afterWrite bs
    | _ => fun _ => s

/-- How an iteration of an outbound task ends. -/
def Forward.Leaves : Flow Exit → Forward → Prop
  | .again, s => s.failed = false ∧ s.drained = s.sent
  | .done _, s => s.failed = true

theorem outboundOnce_forwarding (channel : UInt8) (s : Forward) (hs : Forward.Leaves .again s) :
    (outboundOnce channel : Code D _).Obeys forwarding s Forward.Leaves := by
  have hdrain : (drainVserial channel : Code D _).Obeys forwarding s (fun bytes s' =>
      s'.failed = false ∧ s'.drained = s'.sent ++ bytes) := by
    unfold drainVserial
    split
    · exact ⟨hs, fun _ _ => ⟨hs, fun bytes _ => ⟨⟨hs.1, trivial⟩, fun _ _ =>
        ⟨hs.1, congrArg (· ++ bytes) hs.2⟩⟩⟩⟩
    · exact ⟨hs.1, hs.2.trans (List.append_nil _).symm⟩
  refine hdrain.bind fun bytes s' hs' => ?_
  cases bytes with
  | nil =>
    have hs'' : Forward.Leaves .again s' := ⟨hs'.1, hs'.2.trans (List.append_nil _)⟩
    refine Prog.Obeys.bind (M := fun _ s => Forward.Leaves .again s) ?_ fun _ _ h => h
    unfold waitVserialInbox
    split
    · exact ⟨hs'', fun _ _ => hs''⟩
    · exact ⟨hs'', fun _ _ => hs''⟩
  | cons x bytes =>
    refine ⟨hs', fun r _ => ?_⟩
    cases r with
    | ok u => exact hs'
    | error e => exact rfl

/-- The bytes that a program is about to write. -/
def inHand : Code D (Flow Exit) → List UInt8
  | .eff (.io (.writeAll bs)) _ => bs
  | .eff (.unlock _) k => inHand (k ())
  | _ => []

theorem inHand_forwarding {p : Code D (Flow Exit)} {s : Forward}
    (h : p.Obeys forwarding s Forward.Leaves) (hfailed : s.failed = false) :
    s.drained = s.sent ++ inHand p := by
  induction p with
  | ret a =>
    cases a with
    | again => exact h.2.trans (List.append_nil _).symm
    | done x => exact absurd (hfailed.symm.trans h) nofun
  | eff e k ih =>
    cases e with
    | unlock l => exact ih () (h.2 () trivial)
    | io i =>
      cases i with
      | writeAll bs => exact h.1.2
      | _ => exact h.1.2.trans (List.append_nil _).symm
    | _ => exact h.1.2.trans (List.append_nil _).symm

/-- What an effect drains. -/
def drained : Event (E := Eff D) Eff.Res → List UInt8
  | ⟨.op (.inboxDrain _), bytes⟩ => bytes
  | _ => []

/-- What an effect hands to the client. -/
def sent : Event (E := Eff D) Eff.Res → List UInt8
  | ⟨.io (.writeAll bs), .ok ()⟩ => bs
  | _ => []

theorem forwarding_next (s : Forward) (e : Eff D) (r : e.Res) :
    (forwarding.next s e r).drained = s.drained ++ drained ⟨e, r⟩ ∧
      (forwarding.next s e r).sent = s.sent ++ sent ⟨e, r⟩ := by
  cases e with
  | op o => cases o <;> first | exact ⟨rfl, (List.append_nil _).symm⟩ |
      exact ⟨(List.append_nil _).symm, (List.append_nil _).symm⟩
  | io i =>
    cases i with
    | writeAll bs =>
      cases r with
      | ok u => exact ⟨(List.append_nil _).symm, rfl⟩
      | error e => exact ⟨(List.append_nil _).symm, (List.append_nil _).symm⟩
    | _ => exact ⟨(List.append_nil _).symm, (List.append_nil _).symm⟩
  | _ => exact ⟨(List.append_nil _).symm, (List.append_nil _).symm⟩

theorem forwarding_after (s : Forward) (es : List (Event (E := Eff D) Eff.Res)) :
    (Prog.after forwarding s es).drained = s.drained ++ es.flatMap drained ∧
      (Prog.after forwarding s es).sent = s.sent ++ es.flatMap sent := by
  induction es generalizing s with
  | nil => simp
  | cons ev es ih =>
    obtain ⟨hd, hs⟩ := ih (forwarding.next s ev.1 ev.2)
    obtain ⟨hd', hs'⟩ := forwarding_next s ev.1 ev.2
    refine ⟨?_, ?_⟩
    · rw [List.flatMap_cons, ← List.append_assoc, ← hd', ← hd]
      rfl
    · rw [List.flatMap_cons, ← List.append_assoc, ← hs', ← hs]
      rfl

section runs

variable [VDisk D] [UnicodeTables]

/-- The protocol of lives, for all tasks of the system. -/
def lifeDiscipline (env : Env D F N) : Discipline (system env) Life where
  toProtocol := lives
  off        := .off
  gone       := .gone
  enter      := Life.enter
  leave      := Life.Leaves
  body_obeys := body_lives

variable {env : Env D F N} {cfg : SysConfig D F N}

/-- The ghost life of a session says whether `handle_attach` has returned. -/
theorem ended_iff (hfit : ∀ u, (lifeDiscipline env).Fits u (cfg.task u) (g u)) (n : Nat) :
    (g (.attach n)).Ended ↔ Returned cfg n := by
  have hfitn := hfit (.attach n)
  unfold Returned
  -- the ghost life fits the remaining program of the task, so one determines the other
  cases htask : cfg.task (.attach n) with
  | idle =>
    rw [htask] at hfitn
    have hoff : g (.attach n) = .off := hfitn
    rw [hoff]
    refine ⟨fun h => ?_, False.elim⟩
    rcases h with h | h <;> cases h
  | exited x =>
    rw [htask] at hfitn
    exact ⟨fun _ => trivial, fun _ => .inr hfitn⟩
  | live p =>
    rw [htask] at hfitn
    cases p with
    | ret a =>
      refine ⟨fun _ => trivial, fun _ => ?_⟩
      cases a with
      | again => exact absurd rfl (hfitn.2 n)
      | done x => exact .inl hfitn
    | eff e k =>
      refine ⟨fun h => ?_, False.elim⟩
      rcases h with h | h
      · rw [h] at hfitn
        exact hfitn.1.elim
      · rw [h] at hfitn
        exact hfitn.1.elim

theorem unfinished_running (hfit : ∀ u, (lifeDiscipline env).Fits u (cfg.task u) (g u)) {u : Tid}
    {x : Nat × UInt8} (hu : u.child = some x) (h : (g u).Unfinished) : Running (cfg.task u) := by
  have hfitu := hfit u
  cases htask : cfg.task u with
  | idle => trivial
  | exited y =>
    rw [htask] at hfitu
    exact absurd hfitu h.1
  | live p =>
    rw [htask] at hfitu
    cases p with
    | eff e k => trivial
    | ret a =>
      cases a with
      | again => trivial
      | done y =>
        have hlast : Life.last u = .closed := by
          cases u <;> first | rfl | cases hu
        exact absurd ((hfitu : g u = Life.last u).trans hlast) h.2

theorem holding_live (hfit : ∀ u, (lifeDiscipline env).Fits u (cfg.task u) (g u)) {u : Tid}
    {channel : UInt8} (hu : g u = .holding channel) :
    ∃ p, cfg.task u = .live p ∧ HoldsBytes p := by
  have hprog : ∀ p : Code D (Flow Exit), p.Obeys lives (.holding channel) (Life.Leaves u) →
      HoldsBytes p := by
    intro p
    induction p with
    | ret a =>
      intro h
      cases a with
      | again => exact absurd h.1 (Life.enter_ne u channel).1
      | done x => exact absurd h (Life.enter_ne u channel).2.1
    | eff e k ih =>
      intro h
      cases e with
      | lock l m => exact ih () (h.2 () trivial)
      | op o => cases o <;> first | trivial | exact h.1.elim
      | _ => exact h.1.elim
  have hfitu := hfit u
  rw [hu] at hfitu
  cases htask : cfg.task u with
  | idle => rw [htask] at hfitu; cases hfitu
  | exited y => rw [htask] at hfitu; cases hfitu
  | live p =>
    rw [htask] at hfitu
    exact ⟨p, rfl, hprog p hfitu⟩

/-- Permitted steps put nothing before an orphan. -/
theorem inbox_stays_empty (hfit : ∀ u, (lifeDiscipline env).Fits u (cfg.task u) (g u)) {e : Eff D}
    {r : e.Res} (hok : undisturbed cfg (t, ⟨e, r⟩)) (hpoll : poll env t e cfg.world (.ready r) w')
    (n : Nat) (channel : UInt8) (horphan : Orphan g cfg.world n channel) (c : Channel)
    (hc : c.val = channel.toNat) (hempty : cfg.world.server.vserialInbox c = []) :
    w'.server.vserialInbox c = [] := by
  have hreader : OrphanReader cfg n channel :=
    ⟨(ended_iff hfit n).mp horphan.1, horphan.2.1, unfinished_running hfit rfl horphan.2.2⟩
  rw [poll_server hpoll]
  cases e with
  | op o =>
    refine op_inbox_empty ?_ hempty
    cases o with
    | inboxPushBack c' b =>
      refine if_neg ?_
      rintro rfl
      exact hok n channel hc hreader
    | inboxExtend c' bs =>
      rcases hok with hbs | hnone
      · show (if c' = c then bs else []) = []
        rw [hbs, ite_self]
      · refine if_neg ?_
        rintro rfl
        exact hnone n channel hc hreader
    | _ => rfl
  | _ => exact hempty

section ready

/-! The completed effects, one life at a time. -/

variable {e : Eff D} {r : e.Res} {n : Nat} {channel : UInt8}

/-- A step of a task that a session has spawned, in its loop. -/
theorem child_ready (hg : Orderly g cfg.world)
    (hfit : ∀ u, (lifeDiscipline env).Fits u (cfg.task u) (g u))
    (hloop : g t = .reading channel ∨ g t = .holding channel ∨ g t = .looping channel)
    (hok : undisturbed cfg (t, ⟨e, r⟩)) (hpoll : poll env t e cfg.world (.ready r) w')
    (hunspawned : ∀ u, e ≠ .spawn u) {s : Life} (hs : s.Suits t)
    (hhold : ∀ n channel channel', t = .attachIn n channel → s = .holding channel' →
      g t = .holding channel' ∨ ¬ (g (.attach n)).Ended) :
    Orderly (Function.update g t s) w' := by
  have ht : ∀ n, t ≠ .attach n := by
    rintro n rfl
    have hsuits := hg.suits (.attach n)
    rcases hloop with h | h | h <;> rw [h] at hsuits <;> cases hsuits
  have hlive : ∀ x, t.child = some x → t ∈ cfg.world.spawned := by
    intro x hx
    apply hg.started t x hx
    intro hoff
    rcases hloop with h | h | h <;> rw [hoff] at h <;> cases h
  have hrunning : (g t).Unfinished := by
    constructor
    · intro hgone
      rcases hloop with h | h | h <;> rw [hgone] at h <;> cases h
    · intro hclosed
      rcases hloop with h | h | h <;> rw [hclosed] at h <;> cases h
  exact hg.move ht hs hlive (poll_spawned hpoll hunspawned) (fun _ => hrunning) hhold
    (inbox_stays_empty hfit hok hpoll)

omit [VDisk D] [UnicodeTables] in
/-- The channel byte of a session arrives, or its client has gone. -/
theorem waiting_ready (hg : Orderly g cfg.world) (hlife : g (.attach n) = .waiting n) {k : Nat}
    {r : (Io.readExact k).Res}
    (hpoll : poll env (.attach n) (.io (.readExact k)) cfg.world (.ready r) w') {s : Life}
    (hs : s.Suits (.attach n)) : Orderly (Function.update g (.attach n) s) w' := by
  -- nothing has been spawned yet that would have to fit the new life
  have hnone := hg.no_child (.inr hlife)
  have hspawned : w'.spawned = cfg.world.spawned := poll_spawned hpoll fun u h => by cases h
  apply hg.session hs
  · intro u m channel _ hmem
    rw [hspawned] at hmem
    exact .inl hmem
  · intro u hmem
    rwa [hspawned]
  · exact poll_server hpoll
  · intro u channel hu hmem
    exact absurd hmem (hnone u channel hu).1
  · intro _ channel hmem
    exact absurd hmem (hnone _ channel rfl).1
  · intro _ channel channel'
    rw [(hnone (.attachIn n channel) channel rfl).2]
    intro h
    cases h

omit [VDisk D] [UnicodeTables] in
/-- A session that is about to select has spawned tasks for one channel only. -/
theorem selecting_channel (hg : Orderly g cfg.world)
    (hlife : g (.attach n) = .selecting n channel) {u : Tid} {channel' : UInt8}
    (hu : u.child = some (n, channel')) (hmem : u ∈ cfg.world.spawned) : channel' = channel := by
  rcases hg.spawned u n channel' hu hmem with h | h | h
  · rw [hlife] at h
    exact ((Life.selecting.inj h).2).symm
  · rw [hlife] at h
    cases h
  · rw [hlife] at h
    cases h

omit [VDisk D] [UnicodeTables] in
/-- A session spawns a task for its channel. -/
theorem spawn_ready (hg : Orderly g cfg.world) (hlife : g (.attach n) = .selecting n channel)
    {u : Tid} (hu : u.child = some (n, channel))
    (hpoll : poll env (.attach n) (.spawn u) cfg.world (.ready ()) w') :
    Orderly (Function.update g (.attach n) (.selecting n channel)) w' := by
  obtain ⟨-, rfl⟩ := hpoll
  have hunended : ¬ (Life.selecting n channel).Ended := by
    rintro (h | h) <;> cases h
  apply hg.session (show Life.Suits (.attach n) (.selecting n channel) from rfl)
  · intro v m channel' hv hmem
    rcases List.mem_cons.mp hmem with rfl | hmem
    · cases hv.symm.trans hu
      exact .inr ⟨rfl, rfl⟩
    · exact .inl hmem
  · exact fun v hmem => List.mem_cons_of_mem _ hmem
  · rfl
  · intro v channel' hv hmem
    rw [selecting_channel hg hlife hv hmem]
    exact .inl rfl
  · exact fun h => absurd h hunended
  · exact fun h => absurd h hunended

/-- `handle_attach` returns.  The condition on the run takes care of the tasks
    that it leaves behind. -/
theorem select_ready (hg : Orderly g cfg.world)
    (hfit : ∀ u, (lifeDiscipline env).Fits u (cfg.task u) (g u))
    (hlife : g (.attach n) = .selecting n channel)
    (hok : undisturbed cfg
      (.attach n, ⟨.select (.attachIn n channel) (.attachOut n channel), ()⟩))
    (hpoll : poll env (.attach n) (.select (.attachIn n channel) (.attachOut n channel)) cfg.world
      (.ready ()) w') :
    Orderly (Function.update g (.attach n) .returned) w' := by
  obtain ⟨rfl, -⟩ := hpoll
  apply hg.session (show Life.Suits (.attach n) .returned from ⟨n, rfl⟩)
  · exact fun _ _ _ _ hmem => .inl hmem
  · exact fun _ hmem => hmem
  · rfl
  · exact fun _ _ _ _ => .inr (.inl rfl)
  · -- the outbound task has finished, or there is nothing in its inbox
    intro _ channel' hmem hunf c hc
    have hchannel := selecting_channel hg hlife rfl hmem
    subst hchannel
    have hreads : (Tid.attachOut n channel').reads = some c := by
      have hlt : channel'.toNat < vserialChannels := hc ▸ c.isLt
      rw [Tid.reads, dif_pos hlt]
      exact congrArg some (Fin.ext hc.symm)
    exact hok.1 c hreads (unfinished_running hfit rfl hunf)
  · -- the inbound task holds no bytes
    intro _ channel' channel'' hhold
    have hmem : Tid.attachIn n channel' ∈ cfg.world.spawned :=
      hg.started (.attachIn n channel') _ rfl (by rw [hhold]; exact fun h => by cases h)
    have hchannel := selecting_channel hg hlife rfl hmem
    subst hchannel
    obtain ⟨p, hp, hbytes⟩ := holding_live hfit hhold
    exact hok.2 p hp hbytes

/-- An inbound task has read. -/
theorem reading_ready (hg : Orderly g cfg.world)
    (hfit : ∀ u, (lifeDiscipline env).Fits u (cfg.task u) (g u)) (hlife : g t = .reading channel)
    {k : Nat} {r : (Io.read k).Res} (hok : undisturbed cfg (t, ⟨.io (.read k), r⟩))
    (hpoll : poll env t (.io (.read k)) cfg.world (.ready r) w') :
    Orderly (Function.update g t (Life.afterRead channel r)) w' := by
  have hsuits := hg.suits t
  rw [hlife] at hsuits
  have hclosed : Life.Suits t .closed := by
    cases t <;> first | rfl | cases hsuits
  have hafter : (Life.afterRead channel r).Suits t := by
    unfold Life.afterRead
    split
    · split
      · exact hsuits
      · exact hsuits
    · exact hclosed
  refine child_ready hg hfit (.inl hlife) hok hpoll (fun u h => by cases h) hafter ?_
  -- bytes are held only after a read that the condition permits
  rintro n channel' channel'' rfl hholds
  refine .inr fun hended => ?_
  have hnil := hok ((ended_iff hfit n).mp hended)
  cases r with
  | error e => cases hholds
  | ok bytes =>
    rw [hnil bytes rfl] at hholds
    cases hholds

/-- An inbound task has appended its bytes. -/
theorem holding_ready (hg : Orderly g cfg.world)
    (hfit : ∀ u, (lifeDiscipline env).Fits u (cfg.task u) (g u)) (hlife : g t = .holding channel)
    {c : Channel} {bs : List UInt8} {r : (Op.outboxExtend (D := D) c bs).Res}
    (hok : undisturbed cfg (t, ⟨.op (.outboxExtend c bs), r⟩))
    (hpoll : poll env t (.op (.outboxExtend c bs)) cfg.world (.ready r) w') :
    Orderly (Function.update g t (.reading channel)) w' := by
  have hsuits := hg.suits t
  rw [hlife] at hsuits
  exact child_ready hg hfit (.inr (.inl hlife)) hok hpoll (fun u h => by cases h) hsuits
    fun _ _ _ _ h => by cases h

/-- The client of an outbound task has gone. -/
theorem looping_ready (hg : Orderly g cfg.world)
    (hfit : ∀ u, (lifeDiscipline env).Fits u (cfg.task u) (g u)) (hlife : g t = .looping channel)
    {bs : List UInt8} {r : Except IoError Unit} (hok : undisturbed cfg (t, ⟨.io (.writeAll bs), r⟩))
    (hpoll : poll env t (.io (.writeAll bs)) cfg.world (.ready r) w') :
    Orderly (Function.update g t .closed) w' := by
  have hsuits := hg.suits t
  rw [hlife] at hsuits
  have hclosed : Life.Suits t .closed := by
    cases t <;> first | rfl | cases hsuits
  exact child_ready hg hfit (.inr (.inr hlife)) hok hpoll (fun u h => by cases h) hclosed
    fun _ _ _ _ h => by cases h

/-- **Every completed effect** keeps the invariant, in runs that meet the
    condition. -/
theorem orderly_ready (hg : Orderly g cfg.world)
    (hfit : ∀ u, (lifeDiscipline env).Fits u (cfg.task u) (g u)) {e : Eff D} {r : e.Res}
    (hallow : lives.allows (g t) e) (hok : undisturbed cfg (t, ⟨e, r⟩))
    (hpoll : poll env t e cfg.world (.ready r) w') :
    Orderly (Function.update g t (lives.next (g t) e r)) w' := by
  have hsuits := hg.suits t
  -- a step that leaves the life alone
  have hframe : (∀ u, e ≠ .spawn u) → lives.next (g t) e r = g t →
      Orderly (Function.update g t (lives.next (g t) e r)) w' := by
    intro he hnext
    rw [hnext, Function.update_eq_self]
    exact hg.frame (poll_spawned hpoll he) (inbox_stays_empty hfit hok hpoll)
  cases hlife : g t with
  | off => rw [hlife] at hallow; exact hallow.elim
  | gone => rw [hlife] at hallow; exact hallow.elim
  | returned => rw [hlife] at hallow; exact hallow.elim
  | closed => rw [hlife] at hallow; exact hallow.elim
  | plain =>
    rw [hlife] at hallow hframe
    cases e with
    | spawn u => exact hallow.elim
    | select u v => exact hallow.elim
    | _ => exact hframe nofun rfl
  | waiting n =>
    rw [hlife] at hallow hsuits
    subst hsuits
    cases e with
    | io i =>
      cases i with
      | readExact k =>
        cases r with
        | ok chByte => exact waiting_ready hg hlife hpoll rfl
        | error e => exact waiting_ready hg hlife hpoll ⟨n, rfl⟩
      | _ => exact hallow.elim
    | _ => exact hallow.elim
  | selecting n channel =>
    rw [hlife] at hallow hsuits
    subst hsuits
    cases e with
    | spawn u => exact spawn_ready hg hlife hallow hpoll
    | select u v =>
      obtain ⟨rfl, rfl⟩ := hallow
      exact select_ready hg hfit hlife hok hpoll
    | _ => exact hallow.elim
  | reading channel =>
    rw [hlife] at hallow hframe
    cases e with
    | unlock l => exact hframe nofun rfl
    | io i =>
      cases i with
      | read k => exact reading_ready hg hfit hlife hok hpoll
      | _ => exact hallow.elim
    | _ => exact hallow.elim
  | holding channel =>
    rw [hlife] at hallow hframe
    cases e with
    | lock l m => exact hframe nofun rfl
    | op o =>
      cases o with
      | outboxExtend c bs => exact holding_ready hg hfit hlife hok hpoll
      | _ => exact hallow.elim
    | _ => exact hallow.elim
  | looping channel =>
    rw [hlife] at hallow hframe
    cases e with
    | lock l m => exact hframe nofun rfl
    | unlock l => exact hframe nofun rfl
    | notified c => exact hframe nofun rfl
    | never => exact hframe nofun rfl
    | op o =>
      cases o with
      | inboxDrain c => exact hframe nofun rfl
      | _ => exact hallow.elim
    | io i =>
      cases i with
      | writeAll bs =>
        cases r with
        | ok u => exact hframe nofun rfl
        | error e => exact looping_ready hg hfit hlife hok hpoll
      | _ => exact hallow.elim
    | _ => exact hallow.elim

end ready

theorem lifeDiscipline_keeps (env : Env D F N) :
    (lifeDiscipline env).Keeps undisturbed Orderly where
  start := by
    intro g w t hg hoff hmay
    have hoff : g t = .off := hoff
    -- a session starts without children, a child only when its session has spawned it
    by_cases ht : ∃ n, t = .attach n
    · obtain ⟨n, rfl⟩ := ht
      have hnone := hg.no_child (.inl hoff)
      refine hg.session (s := .waiting n) rfl (fun _ _ _ _ hmem => .inl hmem) (fun _ hmem => hmem)
        rfl (fun u channel hu hmem => absurd hmem (hnone u channel hu).1) ?_ ?_
      · rintro (h | h) <;> cases h
      · rintro (h | h) <;> cases h
    · refine hg.starts hoff (fun n h => ht ⟨n, h⟩) fun x hx => ?_
      cases t with
      | attachIn n channel => exact hmay
      | attachOut n channel => exact hmay
      | _ => cases hx
  again := by
    intro g w t hg hleave
    have hsame : g t = Life.enter t := hleave.1
    show Orderly (Function.update g t (Life.enter t)) w
    rw [← hsame, Function.update_eq_self]
    exact hg
  exit := by
    intro g w t x hg hleave
    have hlast : g t = Life.last t := hleave
    by_cases ht : ∃ n, t = .attach n
    · obtain ⟨n, rfl⟩ := ht
      have hended : (g (.attach n)).Ended := .inl hlast
      refine hg.session (s := .gone) trivial (fun _ _ _ _ hmem => .inl hmem) (fun _ hmem => hmem)
        rfl (fun _ _ _ _ => .inr (.inr rfl)) ?_ fun _ channel channel' =>
          hg.writer n channel channel' hended
      exact fun _ channel hmem hunf => hg.reader n channel ⟨hended, hmem, hunf⟩
    · exact hg.ends hlast (fun n h => ht ⟨n, h⟩) rfl rfl
  pending := by
    intro g w t e w' hg _ hpoll
    refine hg.frame (poll_pending hpoll).2.2.1 fun _ _ _ _ _ h => ?_
    rwa [poll_pending_server hpoll]
  ready := by
    intro cfg g t e k r w' hg hfit _ hallow hok hpoll
    exact ⟨trivial, orderly_ready hg hfit hallow hok hpoll⟩
  ambient := by
    intro g w w' hg hw
    obtain ⟨n, -, rfl⟩ := hw
    exact hg.frame rfl fun _ _ _ _ _ h => h

/-- The invariant excludes steps that steal. -/
theorem not_steals {cfg' : SysConfig D F N} {l : SysLabel D} (hg : Orderly g cfg.world)
    (hfit : ∀ u, (lifeDiscipline env).Fits u (cfg.task u) (g u)) {n : Nat}
    (hreturned : Returned cfg n) (hstep : Step (system env) cfg (some l) cfg') : ¬ Steals n l := by
  have hended := (ended_iff hfit n).mpr hreturned
  intro hsteals
  obtain ⟨t, e, r⟩ := l
  have hallow : lives.allows (g t) e := by
    cases hstep with
    | ready t e k r w' htask _ =>
      have hfitt := hfit t
      rw [htask] at hfitt
      exact hfitt.1
  have hsuits := hg.suits t
  cases t with
  | attachOut m channel =>
    cases e with
    | op o =>
      cases o with
      | inboxDrain c =>
        obtain ⟨rfl, hne⟩ := hsteals
        cases hlife : g (.attachOut m channel) with
        | looping channel' =>
          rw [hlife] at hallow hsuits
          cases hsuits
          have hmem := hg.started (.attachOut m channel) _ rfl (hlife ▸ nofun)
          have hunf : (g (.attachOut m channel)).Unfinished := hlife ▸ ⟨nofun, nofun⟩
          -- an orphan finds its inbox empty, so it takes nothing
          have hempty := hg.reader m channel ⟨hended, hmem, hunf⟩ c hallow
          exact hne ((step_op hstep).1.trans hempty)
        | plain => rw [hlife] at hsuits; cases hsuits
        | _ => rw [hlife] at hallow; exact hallow.elim
      | _ => exact hsteals.elim
    | _ => exact hsteals.elim
  | attachIn m channel =>
    cases e with
    | op o =>
      cases o with
      | outboxExtend c bs =>
        obtain ⟨rfl, _⟩ := hsteals
        cases hlife : g (.attachIn m channel) with
        -- the inbound task of a session that has returned holds no bytes
        | holding channel' => exact hg.writer m channel channel' hended hlife
        | plain => rw [hlife] at hsuits; cases hsuits
        | _ => rw [hlife] at hallow; exact hallow.elim
      | _ => exact hsteals.elim
    | _ => exact hsteals.elim
  | _ => exact hsteals.elim

/-- A call that has returned has returned for ever. -/
theorem returned_step {cfg' : SysConfig D F N} {l : Option (SysLabel D)}
    (hfit : ∀ u, (lifeDiscipline env).Fits u (cfg.task u) (g u)) {n : Nat}
    (h : Returned cfg n) (hstep : Step (system env) cfg l cfg') : Returned cfg' n := by
  have hother : ∀ (t : Tid) x w, t ≠ .attach n → Returned (cfg.put t x w) n := fun t x w ht => by
    unfold Returned at h ⊢
    rwa [Config.put_ne _ _ _ _ _ (Ne.symm ht)]
  -- only a step of the session itself could make a difference, and it has none left
  -- but its exit
  cases hstep with
  | start t hidle _ =>
    refine hother t _ _ ?_
    rintro rfl
    unfold Returned at h
    rw [hidle] at h
    exact h
  | ready t e k r w htask _ =>
    refine hother t _ _ ?_
    rintro rfl
    unfold Returned at h
    rw [htask] at h
    exact h
  | pending => exact h
  | again t htask =>
    refine hother t _ _ ?_
    rintro rfl
    have hfitn := hfit (.attach n)
    rw [htask] at hfitn
    exact hfitn.2 n rfl
  | exit t x htask =>
    by_cases ht : t = .attach n
    · subst ht
      unfold Returned
      rw [Config.put_self]
      trivial
    · exact hother t _ _ ht
  | ambient => exact h

/-- What an outbound task has drained is what its client has got, and what
    it is about to write. -/
theorem outbound_forwards {ok : SysConfig D F N → SysLabel D → Prop} {w : World D F N}
    {tr : List (SysLabel D)} (hrun : Run (system env) ok (Config.initial w) tr cfg) {n : Nat}
    {channel : UInt8} {p : Code D (Flow Exit)} (hp : cfg.task (.attachOut n channel) = .live p)
    (hrunning : ∀ x, p ≠ .ret (.done x)) :
    (eventsOf (.attachOut n channel) tr).flatMap drained =
      (eventsOf (.attachOut n channel) tr).flatMap sent ++ inHand p := by
  have htracks := hrun.tracks (t := .attachOut n channel) (s := (⟨[], [], false⟩ : Forward))
    (outboundOnce_forwarding channel _ ⟨rfl, rfl⟩) (outboundOnce_forwarding channel)
    fun _ _ _ => trivial
  rw [hp] at htracks
  have hobeys : p.Obeys forwarding (Prog.after forwarding ⟨[], [], false⟩
    (eventsOf (.attachOut n channel) tr)) Forward.Leaves := htracks
  have hfailed : (Prog.after (forwarding (D := D)) ⟨[], [], false⟩
      (eventsOf (.attachOut n channel) tr)).failed = false := by
    cases p with
    | eff e k => exact hobeys.1.1
    | ret a =>
      cases a with
      | again => exact hobeys.1
      | done x => exact absurd rfl (hrunning x)
  have hhand := inHand_forwarding hobeys hfailed
  rwa [(forwarding_after _ _).1, (forwarding_after _ _).2, List.nil_append,
    List.nil_append] at hhand

/-- **An ended attach session steals nothing**, in runs that leave it nothing
    to steal.  From any state that such a run has reached: the tasks of a
    session whose `handle_attach` has returned take nothing and append
    nothing any more; what is written to a channel is what the other tasks
    drain and what stays in its inbox; and what the outbound task of a session
    drains goes to its client. -/
theorem attach_steals_nothing (env : Env D F N) (s : Server D) (f : F) (net : N)
    {cfg : SysConfig D F N} {tr : List (SysLabel D)}
    (hrun : Run (system env) undisturbed (Config.initial (World.initial s f net)) tr cfg) :
    (∀ tr' cfg', Run (system env) undisturbed cfg tr' cfg' →
      (∀ n, Returned cfg n → ∀ l ∈ tr', ¬ Steals n l) ∧
      ∀ c, cfg.world.server.vserialInbox c ++ traffic (fun o _ => inboxIn c o) tr' =
        traffic (inboxOut c) tr' ++ cfg'.world.server.vserialInbox c) ∧
    ∀ n channel p, cfg.task (.attachOut n channel) = .live p → (∀ x, p ≠ .ret (.done x)) →
      (eventsOf (.attachOut n channel) tr).flatMap drained =
        (eventsOf (.attachOut n channel) tr).flatMap sent ++ inHand p := by
  have hinit : Orderly (fun _ => .off) (World.initial s f net : World D F N) := by
    refine ⟨fun _ => trivial, nofun, fun _ _ _ h => absurd rfl h, ?_, nofun⟩
    rintro n channel ⟨h | h, _⟩ <;> cases h
  have hinv : ∀ {tr : List (SysLabel D)} {c : SysConfig D F N},
      Run (system env) undisturbed (Config.initial (World.initial s f net)) tr c →
      ∃ g, (lifeDiscipline env).Holds Orderly c g := fun h =>
    (lifeDiscipline env).run_invariant (lifeDiscipline_keeps env) h
      ((lifeDiscipline env).holds_initial hinit)
  refine ⟨fun tr' cfg' hrun' => ⟨fun n hn => ?_, fun c => ?_⟩,
    fun n channel p => outbound_forwards hrun⟩
  · -- along the rest of the run the call stays returned, and no step steals
    have hkeep : Returned cfg' n ∧ ∀ l ∈ tr', ¬ Steals n l := by
      induction hrun' with
      | refl => exact ⟨hn, fun l hl => absurd hl List.not_mem_nil⟩
      | silent hrun' hstep ih =>
        obtain ⟨hreturned, hnone⟩ := ih
        obtain ⟨g, _, hfit⟩ := hinv (hrun.trans hrun')
        exact ⟨returned_step hfit hreturned hstep, hnone⟩
      | act l hrun' _ hstep ih =>
        obtain ⟨hreturned, hnone⟩ := ih
        obtain ⟨g, hg, hfit⟩ := hinv (hrun.trans hrun')
        refine ⟨returned_step hfit hreturned hstep, fun l' hl' => ?_⟩
        rcases List.mem_append.mp hl' with hl' | hl'
        · exact hnone l' hl'
        · rw [List.mem_singleton.mp hl']
          exact not_steals hg hfit hreturned hstep
    exact hkeep.2
  · have hconserved := run_conserves (fun s => s.vserialInbox c) (inboxIn c) (inboxOut c)
      (run_inbox c) hrun'
    exact hconserved

end runs

/-! ## Section 6: A session that ends early -/

/-- A client that attaches to channel 0 and closes its writing side, and a
    guest that sends one byte with SERWRITE. -/
def leaverAndGuest : Tid → Peer
  | .attach 0 => .sending [0]
  | .attachIn 0 0 => .leaving []
  | .guest 0 => .sending [0xC3, 0, 65]
  | _ => .sending []

/-- The outbound task parks, the inbound task exits, `handle_attach` returns. -/
def endOfSession : List Tid :=
  List.replicate 4 (Tid.attach 0) ++ List.replicate 5 (Tid.attachOut 0 0) ++
    List.replicate 3 (Tid.attachIn 0 0) ++ List.replicate 2 (Tid.attach 0)

/-- As long as the guest writes nothing, the parked task does no harm. -/
theorem attach_steals_nothing_leaver :
    Returned (play leaverAndGuest endOfSession) 0 ∧
      ∀ tr' cfg',
        Run (plainSystem scripted) undisturbed (play leaverAndGuest endOfSession) tr' cfg' →
        ∀ l ∈ tr', ¬ Steals 0 l := by
  have hmeets : playMeets undisturbed leaverAndGuest endOfSession :=
    ⟨trivial, trivial, trivial, trivial, trivial, trivial, trivial, trivial, trivial, trivial,
      fun _ _ hbytes => (Except.ok.inj hbytes).symm, trivial,
      ⟨fun _ hreads _ => Option.some.inj hreads ▸ rfl, fun _ htask => by cases htask⟩,
      trivial, trivial⟩
  obtain ⟨tr, hrun⟩ := play_run_of _ _ hmeets
  have hreturned : Returned (play leaverAndGuest endOfSession) 0 := trivial
  refine ⟨hreturned, fun tr' cfg' hrun' => ?_⟩
  exact ((@attach_steals_nothing Unit Unit (Tid → Peer) noDisk asciiTables scripted
    (Server.new Unit) () _ _ _ hrun).1 tr' cfg' hrun').1 0 hreturned

/-- Then the guest writes, and the outbound task wakes up and locks the inbox. -/
def afterTheEnd : List Tid :=
  endOfSession ++ List.replicate 8 (Tid.guest 0) ++ List.replicate 3 (Tid.attachOut 0 0)

/-- Its next step takes the byte, though its session has ended. -/
theorem orphan_steals : ¬ ∀ (tr : List (SysLabel Unit)) (c₁ c₂ : ScriptConfig) (l : SysLabel Unit),
    Run (plainSystem scripted) anyStep
      (Config.initial (World.initial (Server.new Unit) () leaverAndGuest)) tr c₁ →
    Step (plainSystem scripted) c₁ (some l) c₂ → ∀ n, Returned c₁ n → ¬ Steals n l := by
  intro h
  obtain ⟨tr, hrun⟩ := play_run leaverAndGuest afterTheEnd
  let w := (play leaverAndGuest afterTheEnd).world
  have hpoll : poll scripted (.attachOut 0 0) (.op (.inboxDrain 0)) w (.ready [65])
      { w with server := ((Op.inboxDrain 0).run w.server).2 } := ⟨rfl, rfl⟩
  have hstep := @Step.ready Tid (Eff Unit) Eff.Res (World Unit Unit (Tid → Peer)) Exit _
    (plainSystem scripted) (play leaverAndGuest afterTheEnd) (.attachOut 0 0)
    (.op (.inboxDrain 0)) _ [65] _ rfl hpoll
  exact h tr _ _ _ hrun hstep 0 trivial ⟨rfl, nofun⟩

end DriveWire
