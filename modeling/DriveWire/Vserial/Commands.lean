import DriveWire.Server.Sessions

/-! # Commands and the Vserial Queues

    Most of what a task does has nothing to do with the vserial queues.
    Section 1 says what that part is, and which operation on the queues each
    command stands for.  Section 2 reduces the verification of a guest's
    loop body against a protocol to the four pieces of code that touch the
    queues.  Section 3 does the same for the tasks of the hosts. -/

namespace DriveWire

open Async Server

variable {D S : Type}

/-! ## Section 1: Operations on the queues -/

/-- The scopes that change a queue. -/
def Op.onQueues : Op D → Bool
  | .inboxPushBack _ _ | .inboxExtend _ _ | .inboxDrain _ => true
  | .outboxExtend _ _ | .outboxScan | .outboxPop _ _ => true
  | _ => false

/-- Locks, system calls and scopes that leave the queues alone. -/
def Aside : Eff D → Prop
  | .lock _ _ | .unlock _ | .sys _ => True
  | .op o => o.onQueues = false
  | _ => False

theorem guarded_aside (m : Mode) (o : Op D) (h : o.onQueues = false) :
    (guarded m o).Only Aside := by
  rw [guarded_eq]
  simp [Aside, h]

theorem sys_aside (y : Sys D) : (await (.sys y)).Only Aside := by
  simp [await, Prog.perform, Aside]

theorem fetchSector_aside (slot : UInt8) (lsn : Lsn) :
    (fetchSector slot lsn : Code D Sector).Only Aside := by
  refine (guarded_aside _ _ rfl).bind fun disk => ?_
  cases disk with
  | none => trivial
  | some d =>
    refine (sys_aside _).bind fun r => ?_
    cases r <;> trivial

theorem storeSector_aside (slot : UInt8) (lsn : Lsn) (sector : Sector) :
    (storeSector slot lsn sector : Code D UInt8).Only Aside := by
  refine (guarded_aside _ _ rfl).bind fun disk => ?_
  cases disk with
  | none => trivial
  | some d =>
    refine (sys_aside _).bind fun r => ?_
    cases r <;> trivial

theorem setChannelOpen_aside (channel : UInt8) (b : Bool) :
    (setChannelOpen channel b : Code D Unit).Only Aside := by
  by_cases h : channel.toNat < vserialChannels
  · rw [setChannelOpen, dif_pos h]
    exact guarded_aside _ _ rfl
  · rw [setChannelOpen, dif_neg h]
    trivial

theorem vserialOutboxLen_aside (channel : UInt8) :
    (vserialOutboxLen channel : Code D Nat).Only Aside := by
  by_cases h : channel.toNat < vserialChannels
  · rw [vserialOutboxLen, dif_pos h]
    exact (guarded_aside _ _ rfl).bind fun _ => trivial
  · rw [vserialOutboxLen, dif_neg h]
    trivial

theorem isChannelOpen_aside (channel : UInt8) :
    (isChannelOpen channel : Code D Bool).Only Aside := by
  by_cases h : channel.toNat < vserialChannels
  · rw [isChannelOpen, dif_pos h]
    exact (guarded_aside _ _ rfl).bind fun _ => trivial
  · rw [isChannelOpen, dif_neg h]
    trivial

theorem CommandEff.aside {e : Eff D} (h : CommandEff e) : Aside e := by
  cases e with
  | op o => cases o <;> first | rfl | cases h
  | lock l m => trivial
  | unlock l => trivial
  | sys y => trivial
  | _ => cases h

theorem handleControlCommand_aside [VDisk D] [UnicodeTables] (line : Text) :
    (handleControlCommand line : Code D Text).Only Aside :=
  (handleControlCommand_only line).mono fun _ => CommandEff.aside

/-- SERWRITE and FASTWRITE. -/
def pushOp (channel byte : UInt8) : Option (Op D) :=
  if h : channel.toNat < vserialChannels then some (.inboxPushBack ⟨channel.toNat, h⟩ byte)
  else none

/-- The one operation on the queues that a complete command performs, if it
    performs any: it names the channel of the command. -/
def commandOp : Decoded → List UInt8 → Option (Op D)
  | .fastWrite channel, [byte] => pushOp channel byte
  | .op .serWrite, [channel, byte] => pushOp channel byte
  | .op .serWriteM, channel :: count :: buf =>
    if h : channel.toNat < vserialChannels ∧ buf.length = count.toNat then
      some (.inboxExtend ⟨channel.toNat, h.1⟩ buf)
    else none
  | .op .serRead, [] => some .outboxScan
  | .op .serReadM, [channel, count] =>
    if h : channel.toNat < vserialChannels then
      some (.outboxPop ⟨channel.toNat, h⟩ count.toNat)
    else none
  | _, _ => none

/-! ## Section 2: A rule for guest sessions -/

/-- What a protocol must allow so that a guest session obeys it.  `I rcv` is
    the assertion while the command `rcv` is being read. -/
structure GuestRules (P : Protocol (Eff D) Eff.Res S) (I : List UInt8 → S → Prop)
    (Q : Flow Exit → S → Prop) : Prop where
  aside : ∀ rcv s e, I rcv s → Aside e → P.allows s e ∧ ∀ r, P.admits s e r → P.next s e r = s
  read : ∀ rcv s n, I rcv s → P.allows s (.io (.readExact n))
  read_ok : ∀ rcv s n v, I rcv s → P.admits s (.io (.readExact n)) (.ok v) →
    I (rcv ++ v.toList) (P.next s (.io (.readExact n)) (.ok v))
  read_error : ∀ rcv s n e x, I rcv s → P.admits s (.io (.readExact n)) (.error e) →
    Q (.done x) (P.next s (.io (.readExact n)) (.error e))
  write : ∀ b payload s bs, I (b :: payload) s →
    (∀ more, commandOp (D := D) (Decoded.fromByte b) (payload ++ more) = none) →
    P.allows s (.io (.writeAll bs))
  write_ok : ∀ b payload s bs, I (b :: payload) s →
    (∀ more, commandOp (D := D) (Decoded.fromByte b) (payload ++ more) = none) →
    P.admits s (.io (.writeAll bs)) (.ok ()) →
    I (b :: payload) (P.next s (.io (.writeAll bs)) (.ok ()))
  write_error : ∀ b payload s bs e x, I (b :: payload) s →
    (∀ more, commandOp (D := D) (Decoded.fromByte b) (payload ++ more) = none) →
    P.admits s (.io (.writeAll bs)) (.error e) →
    Q (.done x) (P.next s (.io (.writeAll bs)) (.error e))
  finish : ∀ b payload s, I (b :: payload) s →
    commandOp (D := D) (Decoded.fromByte b) payload = none → Q .again s
  push : ∀ b payload s c x, I (b :: payload) s →
    commandOp (D := D) (Decoded.fromByte b) payload = some (.inboxPushBack c x) →
    (do guarded .exclusive (.inboxPushBack c x); await (.notifyOne c) : Code D Unit).Obeys P s
      (fun _ => Q .again)
  extend : ∀ b payload s c bs, I (b :: payload) s →
    commandOp (D := D) (Decoded.fromByte b) payload = some (.inboxExtend c bs) →
    (guarded .exclusive (.inboxExtend c bs)).Obeys P s (fun _ => Q .again)
  scan : ∀ b s, I [b] s → commandOp (D := D) (Decoded.fromByte b) [] = some .outboxScan →
    (handleSerread (D := D)).run.Obeys P s (fun r => Q (flowOf r))
  pop : ∀ b payload s c n, I (b :: payload) s →
    commandOp (D := D) (Decoded.fromByte b) payload = some (.outboxPop c n) →
    (do let popped ← guarded .exclusive (.outboxPop c n)
        (writeAll (popped.toList.map (·.getD 0))).run : Code D _).Obeys P s
      (fun r => Q (flowOf r))

namespace GuestRules

variable {P : Protocol (Eff D) Eff.Res S} {I : List UInt8 → S → Prop} {Q : Flow Exit → S → Prop}
variable (h : GuestRules P I Q) {rcv : List UInt8} {s : S}

include h

theorem obeys_read {n : Nat} {f : Vector UInt8 n → Handler D Unit} (hI : I rcv s)
    (hf : ∀ v s', I (rcv ++ v.toList) s' → (f v).run.Obeys P s' (fun r => Q (flowOf r))) :
    (readExact n >>= f).run.Obeys P s (fun r => Q (flowOf r)) := by
  rw [run_readExact_bind]
  refine ⟨h.read rcv s n hI, fun r hr => ?_⟩
  cases r with
  | ok v => exact hf v _ (h.read_ok rcv s n v hI hr)
  | error e => exact h.read_error rcv s n e _ hI hr

theorem obeys_call {α : Type} {c : Code D α} {f : α → Handler D Unit} (hc : c.Only Aside)
    (hI : I rcv s) (hf : ∀ a, (f a).run.Obeys P s (fun r => Q (flowOf r))) :
    (call c >>= f).run.Obeys P s (fun r => Q (flowOf r)) := by
  rw [run_call_bind]
  refine (hc.obeys fun e he => h.aside rcv s e hI he).bind fun a s' hs' => ?_
  rw [hs']
  exact hf a

variable {b : UInt8} {payload : List UInt8}

theorem obeys_return (hI : I (b :: payload) s)
    (hop : commandOp (D := D) (Decoded.fromByte b) payload = none) :
    (return () : Handler D Unit).run.Obeys P s (fun r => Q (flowOf r)) :=
  h.finish b payload s hI hop

theorem obeys_write_bind {bs : List UInt8} {f : Unit → Handler D Unit} (hI : I (b :: payload) s)
    (hop : ∀ more, commandOp (D := D) (Decoded.fromByte b) (payload ++ more) = none)
    (hf : ∀ s', I (b :: payload) s' → (f ()).run.Obeys P s' (fun r => Q (flowOf r))) :
    (writeAll bs >>= f).run.Obeys P s (fun r => Q (flowOf r)) := by
  rw [run_writeAll_bind]
  refine ⟨h.write b payload s bs hI hop, fun r hr => ?_⟩
  cases r with
  | ok u => exact hf _ (h.write_ok b payload s bs hI hop hr)
  | error e => exact h.write_error b payload s bs e _ hI hop hr

theorem obeys_write {bs : List UInt8} (hI : I (b :: payload) s)
    (hop : ∀ more, commandOp (D := D) (Decoded.fromByte b) (payload ++ more) = none) :
    (writeAll bs : Handler D Unit).run.Obeys P s (fun r => Q (flowOf r)) := by
  have hnone : commandOp (D := D) (Decoded.fromByte b) payload = none := by
    simpa using hop []
  have hbind : (writeAll bs >>= fun _ => return ()).run.Obeys P s (fun r => Q (flowOf r)) :=
    h.obeys_write_bind hI hop fun s' hI' => h.obeys_return hI' hnone
  rwa [bind_pure_unit] at hbind

theorem obeys_call_end {c : Code D Unit} (hc : c.Only Aside) (hI : I (b :: payload) s)
    (hop : commandOp (D := D) (Decoded.fromByte b) payload = none) :
    (call c).run.Obeys P s (fun r => Q (flowOf r)) := by
  have hbind := h.obeys_call (f := fun _ => return ()) hc hI fun _ => h.obeys_return hI hop
  rwa [bind_pure_unit] at hbind

theorem obeys_push {channel byte : UInt8} (hI : I (b :: payload) s)
    (hop : commandOp (D := D) (Decoded.fromByte b) payload = pushOp channel byte) :
    (call (pushVserial channel byte : Code D Unit)).run.Obeys P s (fun r => Q (flowOf r)) := by
  by_cases hc : channel.toNat < vserialChannels
  · rw [pushOp, dif_pos hc] at hop
    rw [pushVserial, dif_pos hc, run_call]
    exact (h.push b payload s _ byte hI hop).bind fun _ s' hs' => hs'
  · rw [pushOp, dif_neg hc] at hop
    rw [pushVserial, dif_neg hc]
    exact h.finish b payload s hI hop

theorem handleSerwritem_obeys (hd : Decoded.fromByte b = .op .serWriteM) (hI : I [b] s) :
    (handleSerwritem (D := D)).run.Obeys P s (fun r => Q (flowOf r)) := by
  refine h.obeys_read hI fun hdr s₁ hI₁ => h.obeys_read hI₁ fun buf s₂ hI₂ => ?_
  rw [toList_two hdr] at hI₂
  have hlen : buf.toList.length = (byte1 hdr).toNat := buf.length_toList
  by_cases hc : (byte0 hdr).toNat < vserialChannels
  · rw [dif_pos hc, run_call]
    have hop : commandOp (D := D) (Decoded.fromByte b) (byte0 hdr :: byte1 hdr :: buf.toList) =
        some (.inboxExtend ⟨(byte0 hdr).toNat, hc⟩ buf.toList) := by
      rw [hd]
      exact dif_pos ⟨hc, hlen⟩
    exact (h.extend b _ s₂ _ _ hI₂ hop).bind fun _ s' hs' => hs'
  · rw [dif_neg hc]
    have hop : commandOp (D := D) (Decoded.fromByte b)
        (byte0 hdr :: byte1 hdr :: buf.toList) = none := by
      rw [hd]
      exact dif_neg fun hc' => hc hc'.1
    exact h.obeys_return hI₂ hop

theorem handleSerreadm_obeys (hd : Decoded.fromByte b = .op .serReadM) (hI : I [b] s) :
    (handleSerreadm (D := D)).run.Obeys P s (fun r => Q (flowOf r)) := by
  refine h.obeys_read hI fun p s₁ hI₁ => ?_
  rw [toList_two p] at hI₁
  rw [run_call_bind]
  by_cases hc : (byte0 p).toNat < vserialChannels
  · have hop : commandOp (D := D) (Decoded.fromByte b) [byte0 p, byte1 p] =
        some (.outboxPop ⟨(byte0 p).toNat, hc⟩ (byte1 p).toNat) := by
      rw [hd]
      exact dif_pos hc
    rw [popPadded, dif_pos hc]
    exact h.pop b _ s₁ _ _ hI₁ hop
  · have hop : ∀ more,
        commandOp (D := D) (Decoded.fromByte b) ([byte0 p, byte1 p] ++ more) = none := by
      intro more
      rw [hd]
      cases more with
      | nil => exact dif_neg hc
      | cons x more => rfl
    rw [popPadded, dif_neg hc]
    exact h.obeys_write hI₁ hop

theorem handleSersetstat_obeys (hd : Decoded.fromByte b = .op .serSetStat) (hI : I [b] s) :
    (handleSersetstat (D := D)).run.Obeys P s (fun r => Q (flowOf r)) := by
  have hop : ∀ payload, commandOp (D := D) (Decoded.fromByte b) payload = none := by
    intro payload
    rw [hd]
    rfl
  refine h.obeys_read hI fun hdr s₁ hI₁ => ?_
  split
  · exact h.obeys_call_end (setChannelOpen_aside _ _) hI₁ (hop _)
  split
  · exact h.obeys_call_end (setChannelOpen_aside _ _) hI₁ (hop _)
  split
  · exact h.obeys_read hI₁ fun _ s₂ hI₂ => h.obeys_return hI₂ (hop _)
  · exact h.obeys_return hI₁ (hop _)

theorem handleRead_obeys {extended : Bool}
    (hop : ∀ payload, commandOp (D := D) (Decoded.fromByte b) payload = none) (hI : I [b] s) :
    (handleRead (D := D) extended).run.Obeys P s (fun r => Q (flowOf r)) := by
  refine h.obeys_read hI fun hdr s₁ hI₁ => ?_
  refine h.obeys_call (fetchSector_aside _ _) hI₁ fun sector => ?_
  refine h.obeys_write_bind hI₁ (fun _ => hop _) fun s₂ hI₂ => ?_
  cases extended with
  | true => exact h.obeys_read hI₂ fun _ s₃ hI₃ => h.obeys_write hI₃ fun _ => hop _
  | false => exact h.obeys_write hI₂ fun _ => hop _

theorem handleWrite_obeys
    (hop : ∀ payload, commandOp (D := D) (Decoded.fromByte b) payload = none) (hI : I [b] s) :
    (handleWrite (D := D)).run.Obeys P s (fun r => Q (flowOf r)) := by
  refine h.obeys_read hI fun hdr s₁ hI₁ => h.obeys_read hI₁ fun sector s₂ hI₂ => ?_
  refine h.obeys_read hI₂ fun sum s₃ hI₃ => ?_
  split
  · exact h.obeys_write hI₃ fun _ => hop _
  · exact h.obeys_call (storeSector_aside _ _ _) hI₃ fun _ => h.obeys_write hI₃ fun _ => hop _

theorem handleTime_obeys
    (hop : ∀ payload, commandOp (D := D) (Decoded.fromByte b) payload = none) (hI : I [b] s) :
    (handleTime (D := D)).run.Obeys P s (fun r => Q (flowOf r)) := by
  refine h.obeys_call (sys_aside _) hI fun now => ?_
  cases now with
  | some now => exact h.obeys_write hI fun _ => hop _
  | none => exact h.obeys_call (sys_aside _) hI fun _ => h.obeys_write hI fun _ => hop _

/-- Every arm of the dispatch obeys the protocol. -/
theorem dispatch_obeys (hI : I [b] s) :
    (dispatch (D := D) (Decoded.fromByte b)).run.Obeys P s (fun r => Q (flowOf r)) := by
  have hother : ∀ d, Decoded.fromByte b = d →
      (∀ payload, commandOp (D := D) d payload = none) →
      ∀ payload, commandOp (D := D) (Decoded.fromByte b) payload = none := by
    rintro d rfl hd
    exact hd
  cases hd : Decoded.fromByte b with
  | unknown c => exact h.obeys_return hI (hother _ hd (fun _ => rfl) _)
  | fastWrite channel =>
    refine h.obeys_read hI fun byte s₁ hI₁ => ?_
    rw [toList_one] at hI₁
    exact h.obeys_push hI₁ (by rw [hd]; rfl)
  | op o =>
    -- the commands with an operation on the queues come first, the others have none
    cases o with
    | serWrite =>
      refine h.obeys_read hI fun p s₁ hI₁ => ?_
      rw [toList_two] at hI₁
      exact h.obeys_push hI₁ (by rw [hd]; rfl)
    | serWriteM => exact h.handleSerwritem_obeys hd hI
    | serReadM => exact h.handleSerreadm_obeys hd hI
    | serRead => exact h.scan b s hI (by rw [hd]; rfl)
    | serSetStat => exact h.handleSersetstat_obeys hd hI
    | read | reread | readEx | rereadEx => exact h.handleRead_obeys (hother _ hd fun _ => rfl) hI
    | write | rewrite => exact h.handleWrite_obeys (hother _ hd fun _ => rfl) hI
    | time => exact h.handleTime_obeys (hother _ hd fun _ => rfl) hI
    | dwInit =>
      exact h.obeys_read hI fun _ s₁ hI₁ => h.obeys_write hI₁ fun _ => hother _ hd (fun _ => rfl) _
    | getStat | setStat | serGetStat =>
      exact h.obeys_read hI fun _ s₁ hI₁ => h.obeys_return hI₁ (hother _ hd (fun _ => rfl) _)
    | print =>
      exact h.obeys_read hI fun _ s₁ hI₁ =>
        h.obeys_call_end (guarded_aside _ _ rfl) hI₁ (hother _ hd (fun _ => rfl) _)
    | printFlush =>
      exact h.obeys_call (guarded_aside _ _ rfl) hI fun _ =>
        h.obeys_return hI (hother _ hd (fun _ => rfl) _)
    | serInit | serTerm =>
      exact h.obeys_read hI fun _ s₁ hI₁ =>
        h.obeys_call_end (setChannelOpen_aside _ _) hI₁ (hother _ hd (fun _ => rfl) _)
    | nop | init | term | reset1 | reset2 | reset3 | wirebugMode =>
      exact h.obeys_return hI (hother _ hd (fun _ => rfl) _)

/-- **Rule for guest sessions.** -/
theorem guestOnce_obeys (hI : I [] s) : (guestOnce (D := D)).Obeys P s Q := by
  refine Prog.obeys_bind.mpr ?_
  rw [runOnce_eq]
  refine ⟨h.read [] s 1 hI, fun r hr => ?_⟩
  cases r with
  | ok v =>
    have hI₁ := h.read_ok [] s 1 v hI hr
    rw [toList_one, List.nil_append] at hI₁
    exact h.dispatch_obeys hI₁
  | error e => exact h.read_error [] s 1 e _ hI hr

end GuestRules

/-! ## Section 3: The tasks of the hosts -/

/-- What is left to the hosts: they do not write to the guest's side of a
    queue, take nothing from the outbox, neither send nor await a wake-up,
    and start no tasks. -/
def HostEff : Eff D → Prop
  | .notifyOne _ | .notified _ | .spawn _ | .select _ _ => False
  | .op (.inboxPushBack _ _) | .op (.inboxExtend _ _) => False
  | .op .outboxScan | .op (.outboxPop _ _) => False
  | _ => True

theorem Aside.hostEff {e : Eff D} (h : Aside e) : HostEff e := by
  cases e with
  | op o => cases o <;> trivial
  | lock l m => trivial
  | unlock l => trivial
  | sys y => trivial
  | _ => cases h

theorem TapEff.hostEff {e : Eff D} (h : TapEff e) : HostEff e := by
  cases e with
  | op o => cases o <;> trivial
  | io i => trivial
  | lock l m => trivial
  | unlock l => trivial
  | never => trivial
  | _ => cases h

/-- On a channel that does not exist the outbound task waits for no signal. -/
theorem OutboundEff.hostEff {channel : UInt8} {e : Eff D} (h : OutboundEff channel e)
    (hchannel : ¬ channel.toNat < vserialChannels) : HostEff e := by
  cases e with
  | notified c =>
    have hc : c.val = channel.toNat := h
    have hlt := c.isLt
    omega
  | _ => exact TapEff.hostEff h

theorem ControlEff.hostEff {e : Eff D} (h : ControlEff e) : HostEff e := by
  cases e with
  | io i => trivial
  | _ => exact Aside.hostEff (CommandEff.aside h)

theorem inboundOnce_host (channel : UInt8) : (inboundOnce channel : Code D _).Only HostEff :=
  (inboundOnce_only channel).mono fun _ => TapEff.hostEff

theorem outboundOnce_host (channel : UInt8) (h : ¬ channel.toNat < vserialChannels) :
    (outboundOnce channel : Code D _).Only HostEff :=
  (outboundOnce_only channel).mono fun _ he => OutboundEff.hostEff he h

theorem apiCall_host : (apiCall (D := D)).Only HostEff :=
  apiCall_only.mono fun _ => TapEff.hostEff

theorem controlOnce_host [VDisk D] [UnicodeTables] : (controlOnce (D := D)).Only HostEff :=
  controlOnce_only.mono fun _ => ControlEff.hostEff

end DriveWire
