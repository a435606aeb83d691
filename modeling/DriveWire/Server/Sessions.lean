import DriveWire.Server.System

/-! # What Sessions Do

    For each kind of task, the effects that its loop body performs.  A guest
    session reads and writes bytes, takes locks, signals channels and calls
    mounted disks.  It starts no task and never waits for a signal.  Only
    control sessions open files and change the table of drives, and attached
    programs and direct callers have nothing to do with drives. -/

namespace DriveWire

open Async Server

variable {D : Type}

/-! ## Section 1: Commands without a disk -/

/-- What a guest session does, other than looking at a drive. -/
def PlainEff : Eff D → Prop
  | .io (.readExact _) | .io (.writeAll _) => True
  | .sys .nowLocal | .sys .nowUtc => True
  | .op (.driveGet _) | .op (.driveInsert _ _) | .op (.driveRemove _) | .op .driveRows => False
  | .op _ => True
  | .lock _ _ | .unlock _ | .notifyOne _ => True
  | _ => False

theorem plain_readExact (n : Nat) : (readExact n : Handler D _).run.Only PlainEff := by
  refine ⟨trivial, fun r _ => ?_⟩
  cases r <;> trivial

theorem plain_writeAll (bs : List UInt8) : (writeAll bs : Handler D _).run.Only PlainEff := by
  refine ⟨trivial, fun r _ => ?_⟩
  cases r <;> trivial

theorem only_call {A : Eff D → Prop} {α : Type} {c : Code D α} (h : c.Only A) :
    (call c).run.Only A := by
  rw [run_call]
  exact h.bind fun _ => trivial

theorem plain_guarded (m : Mode) {o : Op D} (h : PlainEff (.op o)) :
    (guarded m o).Only PlainEff := by
  rw [guarded_eq]
  exact ⟨trivial, fun _ _ => ⟨h, fun _ _ => ⟨trivial, fun _ _ => trivial⟩⟩⟩

theorem plain_pushVserial (channel byte : UInt8) :
    (pushVserial channel byte : Code D Unit).Only PlainEff := by
  unfold pushVserial
  split
  · exact Prog.Only.bind (plain_guarded _ trivial) fun _ => ⟨trivial, fun _ _ => trivial⟩
  · trivial

theorem plain_setChannelOpen (channel : UInt8) (b : Bool) :
    (setChannelOpen channel b : Code D Unit).Only PlainEff := by
  unfold setChannelOpen
  split
  · exact plain_guarded _ trivial
  · trivial

theorem plain_popPadded (channel count : UInt8) :
    (popPadded channel count : Code D (List UInt8)).Only PlainEff := by
  unfold popPadded
  split
  · exact Prog.Only.bind (plain_guarded _ trivial) fun _ => trivial
  · trivial

theorem plain_handleSerread : (handleSerread (D := D)).run.Only PlainEff := by
  rw [handleSerread_eq]
  refine ⟨trivial, fun _ _ => ⟨trivial, fun _ _ => ⟨trivial, fun r _ => ⟨trivial, fun _ _ => ?_⟩⟩⟩⟩
  cases r <;> trivial

theorem plain_handleSerwritem : (handleSerwritem (D := D)).run.Only PlainEff := by
  apply (plain_readExact 2).run_bind
  intro hdr
  apply (plain_readExact _).run_bind
  intro buf
  split
  · exact only_call (plain_guarded _ trivial)
  · trivial

theorem plain_handleSersetstat : (handleSersetstat (D := D)).run.Only PlainEff := by
  apply (plain_readExact 2).run_bind
  intro hdr
  split
  · exact only_call (plain_setChannelOpen _ _)
  split
  · exact only_call (plain_setChannelOpen _ _)
  split
  · exact (plain_readExact _).run_bind fun _ => trivial
  · trivial

theorem plain_handleTime : (handleTime (D := D)).run.Only PlainEff := by
  refine Prog.Only.run_bind (only_call ⟨trivial, fun _ _ => trivial⟩) fun now => ?_
  cases now with
  | some now => exact plain_writeAll _
  | none =>
    refine Prog.Only.run_bind (only_call ⟨trivial, fun _ _ => trivial⟩) fun now => ?_
    exact plain_writeAll _

/-- READ, WRITE and their variants. -/
def Decoded.onDisk : Decoded → Bool
  | .op .read | .op .reread | .op .readEx | .op .rereadEx | .op .write | .op .rewrite => true
  | _ => false

/-- **Only READ and WRITE look at a drive.** -/
theorem dispatch_plain {d : Decoded} (h : d.onDisk = false) :
    (dispatch (D := D) d).run.Only PlainEff := by
  cases d with
  | fastWrite channel =>
    exact (plain_readExact 1).run_bind fun b => only_call (plain_pushVserial _ _)
  | unknown b => trivial
  | op o =>
    cases o with
    | read | reread | readEx | rereadEx | write | rewrite => cases h
    | nop | reset1 | reset2 | reset3 | init | term | wirebugMode => trivial
    | dwInit => exact (plain_readExact 1).run_bind fun _ => plain_writeAll _
    | time => exact plain_handleTime
    | getStat | setStat | serGetStat => exact (plain_readExact 2).run_bind fun _ => trivial
    | print =>
      exact (plain_readExact 1).run_bind fun b => only_call (plain_guarded _ trivial)
    | printFlush => exact Prog.Only.run_bind (only_call (plain_guarded _ trivial)) fun _ => trivial
    | serRead => exact plain_handleSerread
    | serReadM =>
      apply (plain_readExact 2).run_bind
      intro p
      exact Prog.Only.run_bind (only_call (plain_popPadded _ _)) fun _ => plain_writeAll _
    | serInit | serTerm =>
      exact (plain_readExact 1).run_bind fun b => only_call (plain_setChannelOpen _ _)
    | serWrite => exact (plain_readExact 2).run_bind fun p => only_call (plain_pushVserial _ _)
    | serWriteM => exact plain_handleSerwritem
    | serSetStat => exact plain_handleSersetstat

/-- The arms of READ and WRITE. -/
theorem dispatch_onDisk {d : Decoded} (h : d.onDisk = true) :
    (∃ extended, dispatch (D := D) d = handleRead extended) ∨
      dispatch (D := D) d = handleWrite := by
  cases d with
  | fastWrite channel => cases h
  | unknown b => cases h
  | op o =>
    cases o with
    | read | reread => exact .inl ⟨false, rfl⟩
    | readEx | rereadEx => exact .inl ⟨true, rfl⟩
    | write | rewrite => exact .inr rfl
    | _ => cases h

/-! ## Section 2: Guest sessions -/

def GuestEff : Eff D → Prop
  | .io (.readExact _) | .io (.writeAll _) => True
  | .sys (.diskOpen _ _) => False
  | .sys _ => True
  | .op (.driveInsert _ _) | .op (.driveRemove _) => False
  | .op _ => True
  | .lock _ _ | .unlock _ | .notifyOne _ => True
  | _ => False

theorem PlainEff.guest {e : Eff D} (h : PlainEff e) : GuestEff e := by
  cases e with
  | op o => cases o <;> trivial
  | sys y => cases y <;> trivial
  | io i => cases i <;> trivial
  | lock | unlock | notifyOne => trivial
  | _ => cases h

theorem guest_driveAt (slot : UInt8) : (driveAt slot : Code D _).Only GuestEff := by
  rw [driveAt, guarded_eq]
  exact ⟨trivial, fun _ _ => ⟨trivial, fun _ _ => ⟨trivial, fun _ _ => trivial⟩⟩⟩

theorem guest_fetchSector (slot : UInt8) (lsn : Lsn) :
    (fetchSector slot lsn : Code D Sector).Only GuestEff := by
  refine (guest_driveAt slot).bind fun found => ?_
  cases found with
  | none => trivial
  | some d =>
    refine ⟨trivial, fun r _ => ?_⟩
    cases r <;> trivial

theorem guest_storeSector (slot : UInt8) (lsn : Lsn) (sector : Sector) :
    (storeSector slot lsn sector : Code D UInt8).Only GuestEff := by
  refine (guest_driveAt slot).bind fun found => ?_
  cases found with
  | none => trivial
  | some d =>
    refine ⟨trivial, fun r _ => ?_⟩
    cases r <;> trivial

theorem guest_readExact (n : Nat) : (readExact n : Handler D _).run.Only GuestEff :=
  (plain_readExact n).mono fun _ => PlainEff.guest

theorem guest_writeAll (bs : List UInt8) : (writeAll bs : Handler D _).run.Only GuestEff :=
  (plain_writeAll bs).mono fun _ => PlainEff.guest

theorem guest_handleRead (extended : Bool) : (handleRead (D := D) extended).run.Only GuestEff := by
  apply (guest_readExact 4).run_bind
  intro hdr
  apply (only_call (guest_fetchSector _ _)).run_bind
  intro sector
  apply (guest_writeAll _).run_bind
  intro _
  dsimp only
  split
  · exact (guest_readExact 2).run_bind fun _ => guest_writeAll _
  · exact guest_writeAll _

theorem guest_handleWrite : (handleWrite (D := D)).run.Only GuestEff := by
  apply (guest_readExact 4).run_bind
  intro hdr
  apply (guest_readExact _).run_bind
  intro sector
  apply (guest_readExact 2).run_bind
  intro sumBytes
  split
  · exact guest_writeAll _
  · exact (only_call (guest_storeSector _ _ _)).run_bind fun _ => guest_writeAll _

theorem guest_dispatch (d : Decoded) : (dispatch (D := D) d).run.Only GuestEff := by
  cases h : d.onDisk with
  | false => exact (dispatch_plain h).mono fun _ => PlainEff.guest
  | true =>
    rcases dispatch_onDisk (D := D) h with ⟨extended, hd⟩ | hd
    · rw [hd]
      exact guest_handleRead extended
    · rw [hd]
      exact guest_handleWrite

/-- **A guest session does nothing else.** -/
theorem guestOnce_only : (guestOnce (D := D)).Only GuestEff := by
  rw [guestOnce, runOnce_eq]
  refine ⟨trivial, fun r _ => ?_⟩
  cases r with
  | error e => trivial
  | ok v => exact (guest_dispatch _).bind fun _ => trivial

/-! ## Section 3: Control sessions -/

/-- What a command of the control socket does. -/
def CommandEff : Eff D → Prop
  | .lock _ _ | .unlock _ => True
  | .sys (.diskOpen _ _) => True
  | .op (.driveInsert _ _) | .op (.driveRemove _) | .op .driveRows => True
  | .op .openClone | .op .inboxLens | .op .outboxLens => True
  | _ => False

/-- What a control session does: it reads lines, carries them out and
    replies. -/
def ControlEff : Eff D → Prop
  | .io .nextLine | .io (.writeAll _) => True
  | e => CommandEff e

theorem CommandEff.control {e : Eff D} (h : CommandEff e) : ControlEff e := by
  cases e with
  | io i => cases h
  | _ => exact h

theorem command_guarded (m : Mode) {o : Op D} (h : CommandEff (.op o)) :
    (guarded m o).Only CommandEff := by
  rw [guarded_eq]
  exact ⟨trivial, fun _ _ => ⟨h, fun _ _ => ⟨trivial, fun _ _ => trivial⟩⟩⟩

theorem command_vserialSummary : (vserialSummary (D := D)).Only CommandEff := by
  apply (command_guarded .exclusive (o := .openClone) trivial).bind
  intro opens
  simp [withLock, await, Prog.perform, CommandEff]

section control

variable [VDisk D] [UnicodeTables]

omit [UnicodeTables] in
theorem command_mountDsk (slot : UInt8) (path : Text) (readOnly : Bool) :
    (mountDsk slot path readOnly : Code D _).Only CommandEff := by
  refine ⟨trivial, fun r _ => ?_⟩
  cases r with
  | ok d =>
    exact (command_guarded .exclusive (o := .driveInsert slot d) trivial).bind fun _ => trivial
  | error e => trivial

theorem command_controlMount (fields : List Text) :
    (controlMount fields : Code D Text).Only CommandEff := by
  unfold controlMount
  split
  · split
    · apply (command_mountDsk _ _ _).bind
      intro r
      cases r <;> trivial
    · trivial
  · trivial

omit [VDisk D] in
theorem command_controlUnmount (fields : List Text) :
    (controlUnmount fields : Code D Text).Only CommandEff := by
  unfold controlUnmount
  split
  · split
    · exact Prog.Only.bind (command_guarded _ trivial) fun _ => trivial
    · trivial
  · trivial

omit [UnicodeTables] in
theorem command_controlStatus : (controlStatus (D := D)).Only CommandEff := by
  refine Prog.Only.bind ?_ fun drives => command_vserialSummary.bind fun channels => trivial
  exact Prog.Only.bind (command_guarded _ trivial) fun _ => trivial

theorem handleControlCommand_only (line : Text) :
    (handleControlCommand line : Code D Text).Only CommandEff := by
  unfold handleControlCommand
  split
  · trivial
  · dsimp only
    split
    · exact command_controlMount _
    split
    · exact command_controlUnmount _
    split
    · exact command_controlStatus
    split <;> trivial

/-- **Rule for control sessions.**  A line that is not blank is handled as a
    command, and the reply is written. -/
theorem controlOnce_obeys {S : Type} {P : Protocol (Eff D) Eff.Res S} {Q : Flow Exit → S → Prop}
    {s : S} (hread : P.allows s (.io .nextLine))
    (hfail : ∀ e x, Q (.done x) (P.next s (.io .nextLine) (.error e)))
    (hend : ∀ x, Q (.done x) (P.next s (.io .nextLine) (.ok none)))
    (hblank : ∀ line, trim line = [] → Q .again (P.next s (.io .nextLine) (.ok (some line))))
    (hcommand : ∀ line, P.admits s (.io .nextLine) (.ok (some line)) → trim line ≠ [] →
      (handleControlCommand (trim line)).Obeys P (P.next s (.io .nextLine) (.ok (some line)))
        fun response s' =>
          let reply : Eff D := .io (.writeAll (String.ofList response).toUTF8.toList)
          P.allows s' reply ∧
          (∀ r x, Q (.done x) (P.next s' reply r)) ∧ Q .again (P.next s' reply (.ok ()))) :
    (controlOnce (D := D)).Obeys P s Q := by
  rw [controlOnce_eq]
  refine ⟨hread, fun r hr => ?_⟩
  cases r with
  | error e => exact hfail e _
  | ok line =>
    cases line with
    | none => exact hend _
    | some line =>
      rw [controlLine]
      split
      · rename_i htrim
        exact hblank line htrim
      · rename_i htrim
        refine (hcommand line hr htrim).bind fun response s' hs' => ?_
        obtain ⟨hallow, hdone, hagain⟩ := hs'
        refine ⟨hallow, fun r _ => ?_⟩
        cases r with
        | error e => exact hdone _ _
        | ok u =>
          dsimp only [Prog.bind]
          split
          · exact hdone _ _
          · exact hagain

theorem controlOnce_only : (controlOnce (D := D)).Only ControlEff := by
  refine ⟨trivial, fun r _ => ?_⟩
  cases r with
  | error e => trivial
  | ok line =>
    cases line with
    | none => trivial
    | some line =>
      dsimp only [Prog.bind]
      split
      · trivial
      · have hcommand := handleControlCommand_only (D := D) (trim line)
        apply (hcommand.mono fun _ => CommandEff.control).bind
        intro response
        refine ⟨trivial, fun r _ => ?_⟩
        cases r with
        | error e => trivial
        | ok u =>
          dsimp only [Prog.bind]
          split <;> trivial

end control

/-! ## Section 4: Attached programs and direct callers -/

/-- What is done for attached programs and direct callers, other than waiting
    for a signal. -/
def TapEff : Eff D → Prop
  | .io _ | .lock _ _ | .unlock _ | .never => True
  | .op (.inboxDrain _) | .op (.outboxExtend _ _) | .op .openClone | .op .outboxLens => True
  | _ => False

/-- What an outbound task does: it waits for signals of its channel. -/
def OutboundEff (channel : UInt8) : Eff D → Prop
  | .notified c => c.val = channel.toNat
  | e => TapEff e

theorem TapEff.outbound {channel : UInt8} {e : Eff D} (h : TapEff e) : OutboundEff channel e := by
  cases e with
  | notified c => cases h
  | _ => exact h

theorem tap_guarded (m : Mode) {o : Op D} (h : TapEff (.op o)) : (guarded m o).Only TapEff := by
  rw [guarded_eq]
  exact ⟨trivial, fun _ _ => ⟨h, fun _ _ => ⟨trivial, fun _ _ => trivial⟩⟩⟩

theorem tap_drainVserial (channel : UInt8) : (drainVserial channel : Code D _).Only TapEff := by
  unfold drainVserial
  split
  · exact tap_guarded _ trivial
  · trivial

theorem tap_sendToVserial (channel : UInt8) (bytes : List UInt8) :
    (sendToVserial channel bytes : Code D _).Only TapEff := by
  unfold sendToVserial
  split
  · exact tap_guarded _ trivial
  · trivial

theorem tap_vserialOutboxLen (channel : UInt8) :
    (vserialOutboxLen channel : Code D _).Only TapEff := by
  unfold vserialOutboxLen
  split
  · exact (tap_guarded .exclusive (o := .outboxLens) trivial).bind fun _ => trivial
  · trivial

theorem tap_isChannelOpen (channel : UInt8) :
    (isChannelOpen channel : Code D _).Only TapEff := by
  unfold isChannelOpen
  split
  · exact (tap_guarded .exclusive (o := .openClone) trivial).bind fun _ => trivial
  · trivial

theorem inboundOnce_only (channel : UInt8) : (inboundOnce channel : Code D _).Only TapEff := by
  refine ⟨trivial, fun r _ => ?_⟩
  cases r with
  | error e => trivial
  | ok buf =>
    cases buf with
    | nil => trivial
    | cons x buf => exact (tap_sendToVserial channel _).bind fun _ => trivial

theorem outboundOnce_only (channel : UInt8) :
    (outboundOnce channel : Code D _).Only (OutboundEff channel) := by
  apply ((tap_drainVserial channel).mono fun _ => TapEff.outbound).bind
  intro bytes
  cases bytes with
  | nil =>
    refine Prog.Only.bind ?_ fun _ => trivial
    unfold waitVserialInbox
    split
    · exact ⟨rfl, fun _ _ => trivial⟩
    · exact ⟨trivial, fun _ _ => trivial⟩
  | cons x bytes =>
    refine ⟨trivial, fun r _ => ?_⟩
    cases r <;> trivial

theorem apiCall_only : (apiCall (D := D)).Only TapEff := by
  refine ⟨trivial, fun call _ => ?_⟩
  cases call with
  | drainVserial channel => exact (tap_drainVserial channel).bind fun _ => trivial
  | sendToVserial channel bytes => exact (tap_sendToVserial channel bytes).bind fun _ => trivial
  | vserialOutboxLen channel => exact (tap_vserialOutboxLen channel).bind fun _ => trivial
  | isChannelOpen channel => exact (tap_isChannelOpen channel).bind fun _ => trivial

/-! ## Section 5: Who has to do with drives -/

/-- No drive is looked at, and no disk is called. -/
def DriveFree : Eff D → Prop
  | .sys _ => False
  | .op (.driveGet _) | .op (.driveInsert _ _) | .op (.driveRemove _) | .op .driveRows => False
  | _ => True

theorem TapEff.driveFree {e : Eff D} (h : TapEff e) : DriveFree e := by
  cases e with
  | op o => cases o <;> trivial
  | sys y => cases h
  | _ => trivial

theorem OutboundEff.driveFree {channel : UInt8} {e : Eff D} (h : OutboundEff channel e) :
    DriveFree e := by
  cases e with
  | notified c => trivial
  | _ => exact TapEff.driveFree h

theorem attachSession_driveFree (n : Nat) : (attachSession n : Code D _).Only DriveFree := by
  refine ⟨trivial, fun r _ => ?_⟩
  cases r with
  | error e => trivial
  | ok v => exact ⟨trivial, fun _ _ => ⟨trivial, fun _ _ => ⟨trivial, fun _ _ => trivial⟩⟩⟩

/-- Attached programs and direct callers have nothing to do with drives. -/
theorem body_driveFree [VDisk D] [UnicodeTables] {t : Tid} (hguest : ∀ n, t ≠ .guest n)
    (hcontrol : ∀ n, t ≠ .control n) : (body t : Code D _).Only DriveFree := by
  cases t with
  | guest n => exact absurd rfl (hguest n)
  | attach n => exact attachSession_driveFree n
  | attachIn n channel => exact (inboundOnce_only channel).mono fun _ => TapEff.driveFree
  | attachOut n channel => exact (outboundOnce_only channel).mono fun _ => OutboundEff.driveFree
  | control n => exact absurd rfl (hcontrol n)
  | api n => exact apiCall_only.mono fun _ => TapEff.driveFree

/-- The table of drives is left alone, and no file is opened. -/
def MountFree : Eff D → Prop
  | .sys (.diskOpen _ _) => False
  | .op (.driveInsert _ _) | .op (.driveRemove _) => False
  | _ => True

theorem GuestEff.mountFree {e : Eff D} (h : GuestEff e) : MountFree e := by
  cases e with
  | op o => cases o <;> trivial
  | sys y => cases y <;> trivial
  | _ => trivial

theorem DriveFree.mountFree {e : Eff D} (h : DriveFree e) : MountFree e := by
  cases e with
  | op o => cases o <;> trivial
  | sys y => cases h
  | _ => trivial

/-- **Only control sessions mount.** -/
theorem body_mountFree [VDisk D] [UnicodeTables] {t : Tid} (h : ∀ n, t ≠ .control n) :
    (body t : Code D _).Only MountFree := by
  by_cases hguest : ∃ n, t = .guest n
  · obtain ⟨n, rfl⟩ := hguest
    exact guestOnce_only.mono fun _ => GuestEff.mountFree
  · have hfree := body_driveFree (D := D) (fun n heq => hguest ⟨n, heq⟩) h
    exact hfree.mono fun _ => DriveFree.mountFree

end DriveWire
