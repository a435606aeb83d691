import DriveWire.Async.Locks
import DriveWire.Server.ControlAtomic
import DriveWire.Server.Script

/-! # Critical Sections

    Every access to the data of `Server` is made in the scope of a guard, the
    table of drives under a `RwLock` and the other fields under a `Mutex`.
    Section 1 is the table of guards, Section 2 goes through the sessions once
    for all protocols that speak of guards, and Section 3 says what the
    guards are good for: a scope is executed as if its task ran alone.

    This includes SERREAD, whose scope contains the write of its reply, and
    STATUS, which locks the outboxes while it holds the inboxes. -/

namespace DriveWire

open Async Server

variable {D F N S α β : Type}

/-! ## Section 1: The table of guards -/

/-- Code in a guard's scope that only looks at the data. -/
def Op.readOnly : Op D → Bool
  | .driveGet _ | .driveRows | .inboxLens | .outboxLens | .openClone => true
  | _ => false

theorem Op.run_readOnly {o : Op D} (h : o.readOnly = true) (s : Server D) : (o.run s).2 = s := by
  cases o <;> first | rfl | cases h

def Op.access (o : Op D) : Access Lock Mode :=
  if o.readOnly then .use o.lock else .change o.lock

theorem Op.access_cases (o : Op D) : o.access = .use o.lock ∨ o.access = .change o.lock := by
  unfold Op.access
  split
  · exact .inl rfl
  · exact .inr rfl

/-- What an effect has to do with the locks. -/
def Eff.access : Eff D → Access Lock Mode
  | .lock l m => .take l m
  | .unlock l => .drop l
  | .op o => o.access
  | _ => .none

def Mode.sole (m : Mode) : Prop := m = .exclusive

/-- The guards that exist, as the world of the server records them. -/
def guardTable [VDisk D] [UnicodeTables] (env : Env D F N) : LockTable (system env) Lock Mode where
  access  := Eff.access
  sole    := Mode.sole
  holders := World.holders
  ready   := by
    intro t e w w' r hpoll
    rw [(poll_ready hpoll).2.1]
    cases e with
    | op o =>
      show w.holders = o.access.after t w.holders
      rcases o.access_cases with h | h <;> rw [h] <;> rfl
    | _ => rfl
  fits := by
    intro t e w w' l m r he hpoll
    -- only `lock` takes
    cases e with
    | lock l' m' =>
      cases he
      obtain ⟨hpending, -⟩ | ⟨hfree, -, -⟩ := hpoll
      · cases hpending
      cases m with
      | exclusive =>
        have hnone : w.holders l = [] := hfree
        have hempty : ∀ x ∈ w.holders l, ¬ x.2.sole := by simp [hnone]
        exact ⟨fun _ => hnone, hempty⟩
      | shared =>
        have hshared : ∀ x ∈ w.holders l, x.2 = Mode.shared := hfree
        have hmodes : ∀ x ∈ w.holders l, ¬ x.2.sole := by
          intro x hx
          rw [hshared x hx]
          simp [Mode.sole]
        have hsole : ¬ Mode.shared.sole := by simp [Mode.sole]
        exact ⟨fun h => absurd h hsole, hmodes⟩
    | op o =>
      have htake : o.access = .take l m := he
      rcases o.access_cases with h | h <;> rw [h] at htake <;> cases htake
    | _ => cases he
  pending := fun hpoll => (poll_pending hpoll).2.1
  exit    := fun _ _ => rfl
  ambient := by
    rintro w w' ⟨n, -, rfl⟩
    rfl

/-! ## Section 2: Sessions are made of scopes -/

/-- Effects outside of all scopes. -/
def Eff.outside : Eff D → Prop
  | .lock _ _ | .unlock _ | .op _ => False
  | _ => True

/-- The mode that the access needs. -/
def Mode.suffices (m : Mode) (o : Op D) : Prop := m = .exclusive ∨ o.readOnly = true

/-- Code that brings a protocol back to the state in which it starts. -/
def Rests (P : Protocol (Eff D) Eff.Res S) (rest : S) (c : Code D α) : Prop :=
  c.Obeys P rest fun _ s => s = rest

/-- The scope of STATUS over both queues. -/
def queueLens : Code D ((Channel → Nat) × (Channel → Nat)) :=
  withLock .vserialInbox .exclusive <| withLock .vserialOutbox .exclusive do
    let inboxes ← await (.op .inboxLens)
    let outboxes ← await (.op .outboxLens)
    return (inboxes, outboxes)

/-- What a protocol must say of the scopes that there are for all sessions to
    obey it: those with one access, and the two special ones. -/
structure Scoping (P : Protocol (Eff D) Eff.Res S) (rest : S) : Prop where
  outside : ∀ e : Eff D, e.outside →
    P.allows rest e ∧ ∀ r, P.admits rest e r → P.next rest e r = rest
  scope   : ∀ (m : Mode) (o : Op D), m.suffices o → Rests P rest (guarded m o)
  serread : Rests P rest (handleSerread (D := D)).run
  queues  : Rests P rest (queueLens (D := D))

variable {P : Protocol (Eff D) Eff.Res S} {rest : S}

theorem Rests.ret (a : α) : Rests P rest (Prog.ret a : Code D α) := rfl

theorem Rests.bind {c : Code D α} {f : α → Code D β} (hc : Rests P rest c)
    (hf : ∀ a, Rests P rest (f a)) : Rests P rest (c >>= f) := by
  apply Prog.Obeys.bind hc
  intro a s hs
  rw [hs]
  exact hf a

theorem Rests.run_bind {x : Handler D α} {f : α → Handler D β} (hx : Rests P rest x.run)
    (hf : ∀ a, Rests P rest (f a).run) : Rests P rest (x >>= f).run := by
  rw [ExceptT.run_bind]
  apply hx.bind
  intro r
  cases r with
  | ok a => exact hf a
  | error e => exact Rests.ret _

theorem Rests.call {c : Code D α} (hc : Rests P rest c) : Rests P rest (call c).run := by
  rw [run_call]
  exact hc.bind fun a => Rests.ret _

namespace Scoping

variable (hs : Scoping P rest)

include hs

theorem await (e : Eff D) (he : e.outside) : Rests P rest (await e) :=
  ⟨(hs.outside e he).1, (hs.outside e he).2⟩

theorem readExact (n : Nat) : Rests P rest (readExact n : Handler D _).run := by
  apply (hs.await (.io (.readExact n)) trivial).bind
  intro r
  cases r <;> exact Rests.ret _

theorem writeAll (bs : List UInt8) : Rests P rest (writeAll bs : Handler D _).run := by
  apply (hs.await (.io (.writeAll bs)) trivial).bind
  intro r
  cases r <;> exact Rests.ret _

theorem exclusive (o : Op D) : Rests P rest (guarded .exclusive o) :=
  hs.scope .exclusive o (.inl rfl)

theorem pushVserial (channel byte : UInt8) :
    Rests P rest (pushVserial channel byte : Code D _) := by
  unfold Server.pushVserial
  split
  · exact (hs.exclusive _).bind fun _ => hs.await _ trivial
  · exact Rests.ret _

theorem drainVserial (channel : UInt8) : Rests P rest (drainVserial channel : Code D _) := by
  unfold Server.drainVserial
  split
  · exact hs.exclusive _
  · exact Rests.ret _

theorem sendToVserial (channel : UInt8) (bytes : List UInt8) :
    Rests P rest (sendToVserial channel bytes : Code D _) := by
  unfold Server.sendToVserial
  split
  · exact hs.exclusive _
  · exact Rests.ret _

theorem vserialOutboxLen (channel : UInt8) :
    Rests P rest (vserialOutboxLen channel : Code D _) := by
  unfold Server.vserialOutboxLen
  split
  · exact (hs.exclusive _).bind fun _ => Rests.ret _
  · exact Rests.ret _

theorem isChannelOpen (channel : UInt8) : Rests P rest (isChannelOpen channel : Code D _) := by
  unfold Server.isChannelOpen
  split
  · exact (hs.exclusive _).bind fun _ => Rests.ret _
  · exact Rests.ret _

theorem setChannelOpen (channel : UInt8) (b : Bool) :
    Rests P rest (setChannelOpen channel b : Code D _) := by
  unfold Server.setChannelOpen
  split
  · exact hs.exclusive _
  · exact Rests.ret _

theorem waitVserialInbox (channel : UInt8) :
    Rests P rest (waitVserialInbox channel : Code D _) := by
  unfold Server.waitVserialInbox
  split
  · exact hs.await _ trivial
  · exact hs.await _ trivial

/-- The drive table is looked at under a shared guard. -/
theorem driveAt (slot : UInt8) : Rests P rest (driveAt slot : Code D _) :=
  hs.scope .shared (.driveGet slot) (.inr rfl)

theorem fetchSector (slot : UInt8) (lsn : Lsn) :
    Rests P rest (fetchSector slot lsn : Code D _) := by
  apply (hs.driveAt slot).bind
  intro disk
  cases disk with
  | none => exact Rests.ret _
  | some d =>
    apply (hs.await (.sys (.diskRead d lsn)) trivial).bind
    intro r
    cases r <;> exact Rests.ret _

theorem storeSector (slot : UInt8) (lsn : Lsn) (data : Sector) :
    Rests P rest (storeSector slot lsn data : Code D _) := by
  apply (hs.driveAt slot).bind
  intro disk
  cases disk with
  | none => exact Rests.ret _
  | some d =>
    apply (hs.await (.sys (.diskWrite d lsn data)) trivial).bind
    intro r
    cases r <;> exact Rests.ret _

theorem popPadded (channel count : UInt8) :
    Rests P rest (popPadded channel count : Code D _) := by
  unfold Server.popPadded
  split
  · exact (hs.exclusive _).bind fun _ => Rests.ret _
  · exact Rests.ret _

theorem handleRead (extended : Bool) : Rests P rest (handleRead (D := D) extended).run := by
  apply (hs.readExact _).run_bind
  intro hdr
  apply (hs.fetchSector _ _).call.run_bind
  intro sector
  apply (hs.writeAll _).run_bind
  intro _
  cases extended with
  | true => exact (hs.readExact _).run_bind fun _ => hs.writeAll _
  | false => exact hs.writeAll _

theorem handleWrite : Rests P rest (handleWrite (D := D)).run := by
  apply (hs.readExact _).run_bind
  intro hdr
  apply (hs.readExact _).run_bind
  intro data
  apply (hs.readExact _).run_bind
  intro sum
  split
  · exact hs.writeAll _
  · exact (hs.storeSector _ _ _).call.run_bind fun _ => hs.writeAll _

theorem handleSerreadm : Rests P rest (handleSerreadm (D := D)).run := by
  apply (hs.readExact _).run_bind
  intro p
  exact (hs.popPadded _ _).call.run_bind fun _ => hs.writeAll _

theorem handleSerwritem : Rests P rest (handleSerwritem (D := D)).run := by
  apply (hs.readExact _).run_bind
  intro hdr
  apply (hs.readExact _).run_bind
  intro buf
  split
  · exact (hs.exclusive _).call
  · exact Rests.ret _

theorem handleSersetstat : Rests P rest (handleSersetstat (D := D)).run := by
  apply (hs.readExact _).run_bind
  intro hdr
  split
  · exact (hs.setChannelOpen _ _).call
  split
  · exact (hs.setChannelOpen _ _).call
  split
  · exact (hs.readExact _).run_bind fun _ => Rests.ret _
  · exact Rests.ret _

theorem handleTime : Rests P rest (handleTime (D := D)).run := by
  apply (hs.await (.sys .nowLocal) trivial).call.run_bind
  intro now
  cases now with
  | some now => exact hs.writeAll _
  | none => exact (hs.await (.sys .nowUtc) trivial).call.run_bind fun _ => hs.writeAll _

theorem dispatch (d : Decoded) : Rests P rest (dispatch (D := D) d).run := by
  cases d with
  | unknown b => exact Rests.ret _
  | fastWrite channel =>
    exact (hs.readExact _).run_bind fun _ => (hs.pushVserial _ _).call
  | op o =>
    cases o with
    | read | reread => exact hs.handleRead false
    | readEx | rereadEx => exact hs.handleRead true
    | write | rewrite => exact hs.handleWrite
    | dwInit => exact (hs.readExact _).run_bind fun _ => hs.writeAll _
    | time => exact hs.handleTime
    | getStat | setStat | serGetStat => exact (hs.readExact _).run_bind fun _ => Rests.ret _
    | print => exact (hs.readExact _).run_bind fun _ => (hs.exclusive _).call
    | printFlush => exact (hs.exclusive .printTake).call.run_bind fun _ => Rests.ret _
    | serRead => exact hs.serread
    | serReadM => exact hs.handleSerreadm
    | serInit | serTerm =>
      exact (hs.readExact _).run_bind fun _ => (hs.setChannelOpen _ _).call
    | serWrite => exact (hs.readExact _).run_bind fun _ => (hs.pushVserial _ _).call
    | serWriteM => exact hs.handleSerwritem
    | serSetStat => exact hs.handleSersetstat
    | nop | init | term | reset1 | reset2 | reset3 | wirebugMode => exact Rests.ret _

theorem guestOnce : Rests P rest (guestOnce (D := D)) := by
  refine Rests.bind ?_ fun r => Rests.ret _
  rw [runOnce_eq]
  apply (hs.await (.io (.readExact 1)) trivial).bind
  intro r
  cases r with
  | ok v => exact hs.dispatch _
  | error e => exact Rests.ret _

theorem inboundOnce (channel : UInt8) : Rests P rest (inboundOnce channel : Code D _) := by
  apply (hs.await (.io (.read 1024)) trivial).bind
  intro r
  cases r with
  | error e => exact Rests.ret _
  | ok buf =>
    cases buf with
    | nil => exact Rests.ret _
    | cons x buf => exact (hs.sendToVserial _ _).bind fun _ => Rests.ret _

theorem outboundOnce (channel : UInt8) : Rests P rest (outboundOnce channel : Code D _) := by
  apply (hs.drainVserial _).bind
  intro bytes
  cases bytes with
  | nil => exact (hs.waitVserialInbox _).bind fun _ => Rests.ret _
  | cons x bytes =>
    apply (hs.await (.io (.writeAll (x :: bytes))) trivial).bind
    intro r
    cases r <;> exact Rests.ret _

theorem attachSession (n : Nat) : Rests P rest (attachSession n : Code D _) := by
  apply (hs.await (.io (.readExact 1)) trivial).bind
  intro r
  cases r with
  | error e => exact Rests.ret _
  | ok chByte =>
    apply (hs.await (.spawn (.attachIn n (byte0 chByte))) trivial).bind
    intro _
    apply (hs.await (.spawn (.attachOut n (byte0 chByte))) trivial).bind
    intro _
    exact (hs.await (.select _ _) trivial).bind fun _ => Rests.ret _

theorem apiCall : Rests P rest (apiCall (D := D)) := by
  apply (hs.await (.io .nextCall) trivial).bind
  intro call
  cases call with
  | drainVserial channel => exact (hs.drainVserial _).bind fun _ => Rests.ret _
  | sendToVserial channel bytes => exact (hs.sendToVserial _ _).bind fun _ => Rests.ret _
  | vserialOutboxLen channel => exact (hs.vserialOutboxLen _).bind fun _ => Rests.ret _
  | isChannelOpen channel => exact (hs.isChannelOpen _).bind fun _ => Rests.ret _

theorem vserialSummary : Rests P rest (vserialSummary (D := D)) := by
  apply (hs.exclusive .openClone).bind
  intro opens
  exact hs.queues.bind fun lens => Rests.ret ((List.finRange vserialChannels).map
    fun i => (i, opens i, lens.1 i, lens.2 i))

section control

variable [VDisk D]

theorem driveSummary : Rests P rest (driveSummary (D := D)) :=
  (hs.scope .shared .driveRows (.inr rfl)).bind fun _ => Rests.ret _

theorem mountDsk (slot : UInt8) (path : Text) (readOnly : Bool) :
    Rests P rest (mountDsk slot path readOnly : Code D _) := by
  apply (hs.await (.sys (.diskOpen path readOnly)) trivial).bind
  intro r
  cases r with
  | ok disk => exact (hs.exclusive (.driveInsert slot disk)).bind fun _ => Rests.ret _
  | error e => exact Rests.ret _

theorem controlStatus : Rests P rest (controlStatus (D := D)) := by
  apply hs.driveSummary.bind
  intro drives
  exact hs.vserialSummary.bind fun _ => Rests.ret _

variable [UnicodeTables]

theorem controlMount (fields : List Text) : Rests P rest (controlMount fields : Code D _) := by
  unfold Server.controlMount
  split
  · split
    · apply (hs.mountDsk _ _ _).bind
      intro r
      cases r <;> exact Rests.ret _
    · exact Rests.ret _
  · exact Rests.ret _

omit [VDisk D] in
theorem controlUnmount (fields : List Text) :
    Rests P rest (controlUnmount fields : Code D _) := by
  unfold Server.controlUnmount
  split
  · split
    · exact (hs.exclusive (.driveRemove _)).bind fun _ => Rests.ret _
    · exact Rests.ret _
  · exact Rests.ret _

theorem handleControlCommand (line : Text) :
    Rests P rest (handleControlCommand line : Code D _) := by
  unfold Server.handleControlCommand
  split
  · exact Rests.ret _
  · dsimp only
    split
    · exact hs.controlMount _
    split
    · exact hs.controlUnmount _
    split
    · exact hs.controlStatus
    split <;> exact Rests.ret _

theorem controlOnce : Rests P rest (controlOnce (D := D)) := by
  apply (hs.await (.io .nextLine) trivial).bind
  intro r
  cases r with
  | error e => exact Rests.ret _
  | ok line =>
    cases line with
    | none => exact Rests.ret _
    | some line =>
      dsimp only
      split
      · exact Rests.ret _
      · apply (hs.handleControlCommand _).bind
        intro response
        apply (hs.await (.io (.writeAll _)) trivial).bind
        intro r
        cases r with
        | error e => exact Rests.ret _
        | ok u =>
          dsimp only
          split <;> exact Rests.ret _

/-- **Every session consists of scopes** and of effects outside of them. -/
theorem body (t : Tid) : Rests P rest (body (D := D) t) := by
  cases t with
  | guest n => exact hs.guestOnce
  | attach n => exact hs.attachSession n
  | attachIn n channel => exact hs.inboundOnce channel
  | attachOut n channel => exact hs.outboundOnce channel
  | control n => exact hs.controlOnce
  | api n => exact hs.apiCall

end control

end Scoping

/-! ## Section 3: Guards are kept and dropped -/

abbrev guards : Protocol (Eff D) Eff.Res (List (Lock × Mode)) := guarding Eff.access Mode.sole

theorem guards_next_op (held : List (Lock × Mode)) (o : Op D) (r : o.Res) :
    guards.next held (Eff.op o) r = held := by
  cases o <;> rfl

/-- An access under a guard that suffices. -/
theorem guards_allows_op {held : List (Lock × Mode)} {m : Mode} {o : Op D}
    (hmem : (o.lock, m) ∈ held) (h : m.suffices o) : guards.allows held (Eff.op o) := by
  have heq : Eff.access (Eff.op o) = o.access := rfl
  unfold guards guarding
  simp only [heq]
  rcases h with rfl | h
  · rcases o.access_cases with ho | ho
    · simp only [ho]
      exact ⟨_, hmem⟩
    · simp only [ho]
      exact ⟨_, hmem, rfl⟩
  · simp only [Op.access, h, if_true]
    exact ⟨m, hmem⟩

theorem guards_scope {m : Mode} {o : Op D} (h : m.suffices o) :
    Rests guards [] (guarded m o) := by
  rw [guarded_eq]
  refine ⟨fun _ => List.not_mem_nil, fun _ _ => ?_⟩
  show guards.allows [(o.lock, m)] (Eff.op o) ∧ _
  refine ⟨guards_allows_op List.mem_cons_self h, fun a _ => ?_⟩
  show Prog.Obeys guards _ (guards.next [(o.lock, m)] (Eff.op o) a) _
  rw [guards_next_op]
  refine ⟨⟨m, List.mem_cons_self⟩, fun _ _ => ?_⟩
  show [(o.lock, m)].filter (fun x => x.1 ≠ o.lock) = []
  simp

theorem guards_scoping : Scoping (D := D) guards [] where
  outside := by
    intro e he
    cases e with
    | lock l m => cases he
    | unlock l => cases he
    | op o => cases he
    | _ => exact ⟨trivial, fun _ _ => rfl⟩
  scope := fun m o h => guards_scope h
  serread := by
    rw [handleSerread_eq]
    -- the reply is written under the guard, and the guard is dropped if that fails
    refine ⟨fun _ => List.not_mem_nil, fun _ _ => ⟨⟨_, List.mem_cons_self, rfl⟩, fun found _ => ?_⟩⟩
    refine ⟨trivial, fun r _ => ⟨⟨_, List.mem_cons_self⟩, fun _ _ => ?_⟩⟩
    cases r <;> rfl
  queues := by
    refine ⟨fun _ => List.not_mem_nil, fun _ _ => ⟨?_, fun _ _ => ?_⟩⟩
    · intro m hm
      have hmem : (Lock.vserialOutbox, m) ∈ [(Lock.vserialInbox, Mode.exclusive)] := hm
      simp at hmem
    -- from here on both are held
    have hin : (Lock.vserialInbox, Mode.exclusive) ∈
        [(Lock.vserialOutbox, Mode.exclusive), (Lock.vserialInbox, Mode.exclusive)] := by simp
    have hout : (Lock.vserialOutbox, Mode.exclusive) ∈
        [(Lock.vserialOutbox, Mode.exclusive), (Lock.vserialInbox, Mode.exclusive)] := by simp
    refine ⟨⟨.exclusive, hin⟩, fun _ _ => ⟨⟨.exclusive, hout⟩, fun _ _ => ?_⟩⟩
    refine ⟨⟨.exclusive, hout⟩, fun _ _ => ⟨⟨.exclusive, List.mem_cons_self⟩, fun _ _ => rfl⟩⟩

theorem guardTable_disciplined [VDisk D] [UnicodeTables] (env : Env D F N) :
    (guardTable env).Disciplined :=
  fun t => guards_scoping.body t

/-! ## Section 4: What happens in a scope -/

/-- Two states that agree on what `l` protects. -/
def Server.SameAt : Lock → Server D → Server D → Prop
  | .drives, s, s' => s.drives = s'.drives
  | .printBuffer, s, s' => s.printBuffer = s'.printBuffer
  | .vserialInbox, s, s' => s.vserialInbox = s'.vserialInbox
  | .vserialOutbox, s, s' => s.vserialOutbox = s'.vserialOutbox
  | .vserialOpen, s, s' => s.vserialOpen = s'.vserialOpen

@[simp] theorem Server.SameAt.refl (l : Lock) (s : Server D) : s.SameAt l s := by
  cases l <;> rfl

theorem Server.SameAt.trans {l : Lock} {s s' s'' : Server D} (h : s.SameAt l s')
    (h' : s'.SameAt l s'') : s.SameAt l s'' := by
  cases l <;> exact Eq.trans h h'

/-- An access changes nothing behind another lock. -/
theorem Op.sameAt {o : Op D} {l : Lock} (h : o.lock ≠ l) (s : Server D) :
    s.SameAt l (o.run s).2 := by
  cases o <;> cases l <;> first | rfl | exact absurd rfl h

/-- What an access returns and leaves behind its lock is computed from what is
    behind its lock. -/
theorem Op.run_sameAt {o : Op D} {s s' : Server D} (h : s.SameAt o.lock s') :
    (o.run s).1 = (o.run s').1 ∧ (o.run s).2.SameAt o.lock (o.run s').2 := by
  cases o <;> simp_all [Op.run, Op.lock, Server.SameAt]

/-- The accesses to what `l` protects among some events, carried out one after
    the other by nobody else. -/
def replay (l : Lock) (s : Server D) (es : List (Event (Eff.Res (D := D)))) : Server D :=
  es.foldl (fun s ev => match ev with
    | ⟨.op o, _⟩ => if o.lock = l then (o.run s).2 else s
    | _ => s) s

theorem replay_snoc (l : Lock) (s : Server D) (es : List (Event (Eff.Res (D := D)))) (e : Eff D)
    (r : e.Res) : replay l s (es ++ [⟨e, r⟩]) = match e with
      | .op o => if o.lock = l then (o.run (replay l s es)).2 else replay l s es
      | _ => replay l s es := by
  unfold replay
  rw [List.foldl_append]
  cases e <;> rfl

/-- Task `t` has been in the scope of its guard of `l` from `c` to `c'`, and
    its events `es` are those of a task that has the data for itself. -/
structure Undisturbed (l : Lock) (t : Tid) (m : Mode) (c c' : SysConfig D F N)
    (es : List (Event (Eff.Res (D := D)))) : Prop where
  held    : (t, m) ∈ c'.world.holders l
  /-- The data is what the task's own accesses have made of it. -/
  data    : (replay l c.world.server es).SameAt l c'.world.server
  /-- Each access has seen what the earlier ones have left. -/
  answers : ∀ es₁ (o : Op D) (r : o.Res) es₂, es = es₁ ++ ⟨.op o, r⟩ :: es₂ → o.lock = l →
    r = (o.run (replay l c.world.server es₁)).1

section scopes

variable [VDisk D] [UnicodeTables] {env : Env D F N} {c c' : SysConfig D F N}

/-- A step that is not an access which changes the data behind `l`. -/
theorem step_sameAt {t : Tid} {e : Eff D} {r : e.Res} {l : Lock}
    (hstep : Step (system env) c (some (t, ⟨e, r⟩)) c') (he : e.access ≠ .change l) :
    c.world.server.SameAt l c'.world.server := by
  rw [step_server hstep]
  cases e with
  | op o =>
    show c.world.server.SameAt l (o.run c.world.server).2
    by_cases hl : o.lock = l
    · have hread : o.readOnly = true := by
        by_contra hwrite
        apply he
        show o.access = _
        simp [Op.access, hwrite, hl]
      rw [Op.run_readOnly hread]
      exact Server.SameAt.refl l _
    · exact Op.sameAt hl _
  | _ => exact Server.SameAt.refl l _

/-- One more event of the task that has the guard. -/
theorem Undisturbed.own {l : Lock} {t : Tid} {m : Mode} {c₀ : SysConfig D F N}
    {es : List (Event (Eff.Res (D := D)))} (h : Undisturbed l t m c₀ c es) {e : Eff D} {r : e.Res}
    (hstep : Step (system env) c (some (t, ⟨e, r⟩)) c') (hheld : (t, m) ∈ c'.world.holders l) :
    Undisturbed l t m c₀ c' (es ++ [⟨e, r⟩]) := by
  constructor
  · exact hheld
  · rw [replay_snoc]
    cases e with
    | op o =>
      have hserver := (step_op hstep).2
      by_cases hl : o.lock = l
      · subst hl
        simp only [if_true, hserver]
        exact (Op.run_sameAt h.data).2
      · simp only [hl, if_false]
        rw [hserver]
        exact h.data.trans (Op.sameAt hl _)
    | _ =>
      rw [step_server hstep]
      exact h.data
  · intro es₁ o r' es₂ heq hl
    -- the access is the new event or an earlier one
    obtain rfl | ⟨rest, x, rfl⟩ := List.eq_nil_or_concat es₂
    · obtain ⟨rfl, hlast⟩ := List.append_inj' heq rfl
      cases hlast
      rw [(step_op hstep).1]
      subst hl
      exact (Op.run_sameAt h.data).1.symm
    · rw [List.concat_eq_append, ← List.cons_append, ← List.append_assoc] at heq
      obtain ⟨hes, -⟩ := List.append_inj' heq rfl
      exact h.answers es₁ o r' rest hes hl

omit [VDisk D] [UnicodeTables] in
/-- A step that leaves the data behind the lock as it is. -/
theorem Undisturbed.other {l : Lock} {t : Tid} {m : Mode} {c₀ : SysConfig D F N}
    {es : List (Event (Eff.Res (D := D)))} (h : Undisturbed l t m c₀ c es)
    (hsame : c.world.server.SameAt l c'.world.server) (hheld : (t, m) ∈ c'.world.holders l) :
    Undisturbed l t m c₀ c' es :=
  ⟨hheld, h.data.trans hsame, h.answers⟩

/-- A whole scope, by induction on the run. -/
theorem undisturbed_run {l : Lock} {t : Tid} {m : Mode} (hc : (guardTable env).Reached c)
    {tr : List (SysLabel D)} (hrun : Run (system env) anyStep c tr c')
    (ht : (t, m) ∈ c.world.holders l) (hkeep : ∀ ev ∈ eventsOf t tr, ev.1 ≠ .unlock l) :
    Undisturbed l t m c c' (eventsOf t tr) := by
  have hdrop : ∀ e : Eff D, e ≠ .unlock l → e.access ≠ .drop l := by
    intro e he haccess
    cases e with
    | unlock l' =>
      cases haccess
      exact he rfl
    | op o =>
      have hop : o.access = .drop l := haccess
      rcases o.access_cases with h | h <;> rw [h] at hop <;> cases hop
    | _ => cases haccess
  have hheld : ∀ {tr c'}, Run (system env) anyStep c tr c' →
      (∀ ev ∈ eventsOf t tr, ev.1 ≠ .unlock l) → (t, m) ∈ c'.world.holders l := by
    intro tr c' hrun hkeep
    exact (guardTable env).scope_run hrun ht fun ev hev => hdrop ev.1 (hkeep ev hev)
  -- induction on the run: steps of others leave the data, own steps are its accesses
  induction hrun with
  | refl =>
    refine ⟨ht, Server.SameAt.refl l _, ?_⟩
    intro es₁ o r es₂ heq
    simp at heq
  | silent hbefore hstep ih =>
    apply (ih hkeep).other
    · rw [step_silent_server hstep]
      exact Server.SameAt.refl l _
    · exact hheld (hbefore.silent hstep) hkeep
  | act lb hbefore hok hstep ih =>
    have hafter := hheld (hbefore.act lb hok hstep) hkeep
    obtain ⟨u, e, r⟩ := lb
    rw [eventsOf_append] at hkeep
    have ih := ih fun ev hev => hkeep ev (List.mem_append_left _ hev)
    by_cases hu : u = t
    · subst hu
      rw [eventsOf_snoc_self]
      exact ih.own hstep hafter
    · rw [eventsOf_snoc_ne _ _ _ _ hu]
      have hothers := (hc.run hbefore).others (guardTable_disciplined env) ih.held hu hstep
      exact ih.other (step_sameAt hstep hothers.1) hafter

/-- What holds of the guards in every reachable state. -/
structure Guarded (c : SysConfig D F N) : Prop where
  alone    : ∀ l t u m, (t, .exclusive) ∈ c.world.holders l → (u, m) ∈ c.world.holders l → u = t
  waiting  : ∀ t l m m' k, c.task t = .live (.eff (.lock l m) k) → (t, m') ∉ c.world.holders l
  finished : ∀ t x l m, c.task t = .exited x → (t, m) ∉ c.world.holders l
  resting  : ∀ t x l m, c.task t = .live (.ret x) → (t, m) ∉ c.world.holders l

theorem guarded_run {s : Server D} {f : F} {net : N} {tr : List (SysLabel D)}
    (hrun : Run (system env) anyStep (Config.initial (World.initial s f net)) tr c) :
    Guarded c := by
  have hc : (guardTable env).Reached c := ⟨_, tr, fun _ => rfl, hrun⟩
  have hd := guardTable_disciplined env
  constructor
  · intro l t u m ht hu
    exact (hc.alone hd ht rfl hu).1
  · intro t l m m' k ht
    exact hc.not_waiting hd ht rfl
  · intro t x l m ht
    exact hc.exited hd ht
  · intro t x l m ht
    exact hc.resting hd ht

/-- **Scopes are critical sections.** In every run, no two tasks hold a lock
    unless both only look, no task waits for itself, no session leaves a guard
    behind, nor does an iteration of its loop, and between the moment a task
    gets a guard and the moment it drops it, the data that the lock protects
    is as if the task were alone. -/
theorem critical_section (env : Env D F N) (s : Server D) (f : F) (net : N)
    {tr : List (SysLabel D)}
    (hrun : Run (system env) anyStep (Config.initial (World.initial s f net)) tr c) :
    Guarded c ∧ ∀ l t m tr' c', (t, m) ∈ c.world.holders l →
      Run (system env) anyStep c tr' c' → (∀ ev ∈ eventsOf t tr', ev.1 ≠ .unlock l) →
      Undisturbed l t m c c' (eventsOf t tr') := by
  refine ⟨guarded_run hrun, ?_⟩
  intro l t m tr' c' ht hlater hkeep
  exact undisturbed_run ⟨_, tr, fun _ => rfl, hrun⟩ hlater ht hkeep

end scopes

/-! ## Section 5: Two printers -/

/-- Two guests that print a byte each. -/
def printers : Tid → Peer
  | .guest 0 => .sending [0x50, 0x41]
  | .guest 1 => .sending [0x50, 0x42]
  | _ => .sending []

/-- The first guest has the print buffer. -/
def firstPrints : ScriptConfig := play printers (List.replicate 4 (.guest 0))

/-- The second one comes for it before the first one has used it. -/
def secondWaits : List Tid := List.replicate 4 (.guest 1) ++ [.guest 0]

def waitingLabels : List (SysLabel Unit) :=
  scheduleLabels (plainSystem scripted) scriptedPoll scriptedStart firstPrints secondWaits

def afterWaiting : ScriptConfig :=
  schedule (plainSystem scripted) scriptedPoll scriptedStart firstPrints secondWaits

/-- The second guest waits, and what the first one does is what it does on its
    own. -/
theorem critical_section_print :
    firstPrints.world.holders .printBuffer = [(.guest 0, .exclusive)] ∧
    (∃ k, afterWaiting.task (.guest 1) = .live (.eff (.lock .printBuffer .exclusive) k)) ∧
    eventsOf (.guest 0) waitingLabels = [⟨.op (.printPush 0x41), ()⟩] ∧
    Guarded firstPrints ∧
    Undisturbed .printBuffer (.guest 0) .exclusive firstPrints afterWaiting
      (eventsOf (.guest 0) waitingLabels) := by
  obtain ⟨tr, hfirst⟩ := play_run printers (List.replicate 4 (.guest 0))
  have hwaits : Run (plainSystem scripted) anyStep firstPrints waitingLabels afterWaiting :=
    run_schedule scriptedPoll_spec scriptedStart_spec _ _ (scheduleMeets_any _ _)
  have hheld : firstPrints.world.holders .printBuffer = [(.guest 0, .exclusive)] := rfl
  have hevents : eventsOf (.guest 0) waitingLabels = [⟨.op (.printPush 0x41), ()⟩] := rfl
  have hmem : (Tid.guest 0, Mode.exclusive) ∈ firstPrints.world.holders .printBuffer := by
    rw [hheld]
    exact List.mem_singleton_self _
  obtain ⟨hguarded, hscopes⟩ := @critical_section Unit Unit (Tid → Peer) noDisk asciiTables
    firstPrints scripted (Server.new Unit) () printers _ hfirst
  refine ⟨hheld, ⟨_, rfl⟩, hevents, hguarded, hscopes _ _ _ _ _ hmem hwaits ?_⟩
  intro ev hev
  rw [hevents] at hev
  cases List.mem_singleton.mp hev
  intro h
  cases h

end DriveWire
