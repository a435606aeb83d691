import DriveWire.Server.Solo
import DriveWire.Vserial.Commands
import DriveWire.Vserial.Queues

/-! # The Vserial Queues as FIFOs

    In any interleaving of any sessions, what goes into a queue comes out of
    it in order, once, and nowhere else.  Section 1 reads the traffic of a
    queue off a trace and proves its conservation.  Sections 2 and 3 follow
    each iteration of each task: it performs at most the one queue operation
    that its command or call stands for, and sends what that returned. -/

namespace DriveWire

open Async Server Solo

variable {D F N : Type}

/-! ## Section 1: Conservation -/

/-- What a scope appends to the inbox of channel `c`. -/
def inboxIn (c : Channel) : Op D → List UInt8
  | .inboxPushBack c' b => if c' = c then [b] else []
  | .inboxExtend c' bs => if c' = c then bs else []
  | _ => []

/-- What a scope takes out of the inbox of channel `c`. -/
def inboxOut (c : Channel) : (o : Op D) → o.Res → List UInt8
  | .inboxDrain c', bytes => if c' = c then bytes else []
  | _, _ => []

/-- What a scope appends to the outbox of channel `c`. -/
def outboxIn (c : Channel) : Op D → List UInt8
  | .outboxExtend c' bs => if c' = c then bs else []
  | _ => []

/-- The byte of channel `c` that a scan returned. -/
def Scan.taken (c : Channel) : Scan → List UInt8
  | .byte c' b => if c' = c then [b] else []
  | _ => []

/-- What a scope takes out of the outbox of channel `c`. -/
def outboxOut (c : Channel) : (o : Op D) → o.Res → List UInt8
  | .outboxScan, found => found.taken c
  | .outboxPop c' _, popped => if c' = c then popped.toList.filterMap id else []
  | _, _ => []

/-- The bytes that a trace moves, according to `f`. -/
def traffic (f : (o : Op D) → o.Res → List UInt8) (tr : List (SysLabel D)) : List UInt8 :=
  tr.flatMap fun l =>
    match l.2 with
    | ⟨.op o, r⟩ => f o r
    | _ => []

theorem traffic_append (f : (o : Op D) → o.Res → List UInt8) (tr tr' : List (SysLabel D)) :
    traffic f (tr ++ tr') = traffic f tr ++ traffic f tr' :=
  List.flatMap_append

theorem run_inbox (c : Channel) (o : Op D) (s : Server D) :
    s.vserialInbox c ++ inboxIn c o = inboxOut c o (o.run s).1 ++ (o.run s).2.vserialInbox c := by
  cases o with
  | inboxPushBack c' b =>
    by_cases hc : c' = c
    · subst hc; simp [inboxIn, inboxOut, Op.run]
    · simp [inboxIn, inboxOut, Op.run, hc, Function.update_of_ne (Ne.symm hc)]
  | inboxExtend c' bs =>
    by_cases hc : c' = c
    · subst hc; simp [inboxIn, inboxOut, Op.run]
    · simp [inboxIn, inboxOut, Op.run, hc, Function.update_of_ne (Ne.symm hc)]
  | inboxDrain c' =>
    by_cases hc : c' = c
    · subst hc; simp [inboxIn, inboxOut, Op.run]
    · simp [inboxIn, inboxOut, Op.run, hc, Function.update_of_ne (Ne.symm hc)]
  | _ => exact List.append_nil _

theorem scan_outbox (c : Channel) (out : Channel → List UInt8) {found : Scan}
    (h : Found out found) : out c = found.taken c ++ afterScan out found c := by
  cases found with
  | empty => rfl
  | burst c' n => rfl
  | byte c' b =>
    obtain ⟨-, -, hhead⟩ := h
    by_cases hc : c' = c
    · subst hc
      cases hq : out c' with
      | nil => rw [hq] at hhead; cases hhead
      | cons x tail =>
        rw [hq] at hhead
        cases hhead
        simp [Scan.taken, afterScan, hq]
    · simp [Scan.taken, afterScan, hc, Function.update_of_ne (Ne.symm hc)]

theorem run_outbox (c : Channel) (o : Op D) (s : Server D) :
    s.vserialOutbox c ++ outboxIn c o =
      outboxOut c o (o.run s).1 ++ (o.run s).2.vserialOutbox c := by
  cases o with
  | outboxExtend c' bs =>
    by_cases hc : c' = c
    · subst hc; simp [outboxIn, outboxOut, Op.run]
    · simp [outboxIn, outboxOut, Op.run, hc, Function.update_of_ne (Ne.symm hc)]
  | outboxScan =>
    obtain ⟨hfound, hafter⟩ := scanOutbox_found s.vserialOutbox
    simp only [outboxIn, outboxOut, Op.run, hafter, List.append_nil]
    exact scan_outbox c _ hfound
  | outboxPop c' n =>
    by_cases hc : c' = c
    · subst hc
      simp only [outboxIn, outboxOut, Op.run, if_pos, popFronts_popped, popFronts_snd,
        Function.update_self, List.take_append_drop, List.append_nil]
    · simp [outboxIn, outboxOut, Op.run, hc, Function.update_of_ne (Ne.symm hc)]
  | _ => exact List.append_nil _

/-- A quantity that every scope conserves is conserved along every run. -/
theorem run_conserves [VDisk D] [UnicodeTables] {env : Env D F N}
    {ok : SysConfig D F N → SysLabel D → Prop} {c₀ c : SysConfig D F N} {tr : List (SysLabel D)}
    (queue : Server D → List UInt8) (into : Op D → List UInt8)
    (out : (o : Op D) → o.Res → List UInt8)
    (hop : ∀ o s, queue s ++ into o = out o (o.run s).1 ++ queue (o.run s).2)
    (hrun : Run (system env) ok c₀ tr c) :
    queue c₀.world.server ++ traffic (fun o _ => into o) tr =
      traffic out tr ++ queue c.world.server := by
  induction hrun with
  | refl => simp [traffic]
  | silent _ hstep ih => rw [step_silent_server hstep, ih]
  | @act tr c c' l _ _ hstep ih =>
    obtain ⟨t, e, r⟩ := l
    -- only an operation changes the server, and it conserves the quantity
    have hone : queue c.world.server ++ traffic (fun o _ => into o) [(t, ⟨e, r⟩)] =
        traffic out [(t, ⟨e, r⟩)] ++ queue c'.world.server := by
      cases e with
      | op o =>
        obtain ⟨rfl, hs⟩ := step_op hstep
        rw [hs]
        simpa [traffic] using hop o c.world.server
      | _ =>
        have hserver : c'.world.server = c.world.server := step_server hstep
        rw [hserver]
        exact List.append_nil _
    rw [traffic_append, traffic_append, ← List.append_assoc, ih, List.append_assoc, hone,
      List.append_assoc]

/-! ## Section 2: One operation for each command -/

/-- What one iteration of a task's loop received, was asked to do, did to the
    queues, and sent. -/
structure Block (D : Type) where
  received : List UInt8
  called   : Option ApiCall
  did      : List ((o : Op D) × o.Res)
  sent     : List UInt8

def Block.new : Block D := ⟨[], none, [], []⟩

/-- The block with one more effect. -/
def Block.add (b : Block D) : (e : Eff D) → e.Res → Block D
  | .io (.readExact _), .ok v => { b with received := b.received ++ v.toList }
  | .io (.read _), .ok bs => { b with received := b.received ++ bs }
  | .io .nextCall, call => { b with called := some call }
  | .io (.writeAll bs), .ok () => { b with sent := b.sent ++ bs }
  | .op o, r => if o.onQueues then { b with did := b.did ++ [⟨o, r⟩] } else b
  | _, _ => b

/-- `drain_vserial` and `send_to_vserial`. -/
def drainOp (channel : UInt8) : Option (Op D) :=
  if h : channel.toNat < vserialChannels then some (.inboxDrain ⟨channel.toNat, h⟩) else none

def sendOp (channel : UInt8) (bytes : List UInt8) : Option (Op D) :=
  if h : channel.toNat < vserialChannels then some (.outboxExtend ⟨channel.toNat, h⟩ bytes)
  else none

/-- The queue operation that an iteration of task `t` stands for. -/
def Block.plan (t : Tid) (b : Block D) : Option (Op D) :=
  match t with
  | .guest _ =>
    match b.received with
    | [] => none
    | opcode :: payload => commandOp (Decoded.fromByte opcode) payload
  | .attachIn _ channel => if b.received = [] then none else sendOp channel b.received
  | .attachOut _ channel => drainOp channel
  | .api _ =>
    match b.called with
    | some (.drainVserial channel) => drainOp channel
    | some (.sendToVserial channel bytes) => sendOp channel bytes
    | _ => none
  | .attach _ | .control _ => none

/-- An iteration in progress has done nothing to the queues, or exactly what
    it stands for. -/
def Partial (t : Tid) (b : Block D) : Prop :=
  b.did = [] ∨ ∃ o r, b.plan t = some o ∧ b.did = [⟨o, r⟩]

/-- What a call of `drain_vserial` that returns `bytes` has done. -/
def drainDid (channel : UInt8) (bytes : List UInt8) : List ((o : Op D) × o.Res) :=
  if h : channel.toNat < vserialChannels then [⟨.inboxDrain ⟨channel.toNat, h⟩, bytes⟩] else []

/-- A finished iteration has done what it stands for, and what it has sent is
    made of what that returned. -/
structure Complete (t : Tid) (b : Block D) : Prop where
  did : b.did.map Sigma.fst = (b.plan t).toList
  scanned : ∀ found, b.did = [⟨.outboxScan, found⟩] → b.sent = serreadReply found
  popped : ∀ c n v, b.did = [⟨.outboxPop c n, v⟩] → b.sent = v.toList.map (·.getD 0)
  /-- The outbound task of an attach session sends what it has drained. -/
  forwarded : ∀ n channel, t = .attachOut n channel →
    ∀ c bytes, b.did = [⟨.inboxDrain c, bytes⟩] → b.sent = bytes

/-- The protocol of one iteration of task `t`. -/
def iteration (t : Tid) : Protocol (Eff D) Eff.Res (Block D) where
  allows := fun b e =>
    match e with
    | .io (.writeAll _) => True
    | .io _ => b.did = []
    | .op o => o.onQueues = true → b.did = [] ∧ b.plan t = some o
    | _ => True
  admits := fun _ _ _ => True
  next := Block.add

/-- How an iteration may end. -/
def Ends (t : Tid) : Flow Exit → Block D → Prop
  | .again, b => Complete t b
  | .done _, _ => True

theorem aside_iteration (t : Tid) (b : Block D) (e : Eff D) (he : Aside e) :
    (iteration t).allows b e ∧ ∀ r, (iteration t).admits b e r → (iteration t).next b e r = b := by
  cases e with
  | op o =>
    have ho : o.onQueues = false := he
    refine ⟨fun hq => ?_, fun r _ => ?_⟩
    · rw [ho] at hq
      cases hq
    · simp [iteration, Block.add, ho]
  | lock l m => exact ⟨trivial, fun _ _ => rfl⟩
  | unlock l => exact ⟨trivial, fun _ _ => rfl⟩
  | sys y => exact ⟨trivial, fun _ _ => rfl⟩
  | io i => exact he.elim
  | notifyOne c => exact he.elim
  | notified c => exact he.elim
  | never => exact he.elim
  | spawn u => exact he.elim
  | select u v => exact he.elim

theorem aside_code_iteration {t : Tid} {b : Block D} {α : Type} {c : Code D α}
    (hc : c.Only Aside) : c.Obeys (iteration t) b (fun _ b' => b' = b) :=
  hc.obeys (aside_iteration t b)

/-- The scope of the planned operation. -/
theorem guarded_iteration {t : Tid} {b : Block D} {m : Mode} {o : Op D} (ho : o.onQueues = true)
    (hdid : b.did = []) (hplan : b.plan t = some o) :
    (guarded m o).Obeys (iteration t) b (fun r b' => b' = { b with did := [⟨o, r⟩] }) := by
  rw [guarded_eq]
  refine ⟨trivial, fun _ _ => ⟨fun _ => ⟨hdid, hplan⟩, fun r _ => ⟨trivial, fun _ _ => ?_⟩⟩⟩
  simp [iteration, Block.add, ho, hdid]

/-- An iteration without a reply. -/
theorem Complete.of_plan {t : Tid} {b : Block D} (hdid : b.did.map Sigma.fst = (b.plan t).toList)
    (hscan : b.plan t ≠ some .outboxScan) (hpop : ∀ c n, b.plan t ≠ some (.outboxPop c n))
    (hforwarded : ∀ n channel, t = .attachOut n channel →
      ∀ c bytes, b.did = [⟨.inboxDrain c, bytes⟩] → b.sent = bytes) : Complete t b where
  did := hdid
  scanned := fun found h => by
    rw [h] at hdid
    exact absurd (Option.toList_eq_singleton_iff.mp hdid.symm) hscan
  popped := fun c n _ h => by
    rw [h] at hdid
    exact absurd (Option.toList_eq_singleton_iff.mp hdid.symm) (hpop c n)
  forwarded := hforwarded

theorem Complete.idle {t : Tid} {b : Block D} (hdid : b.did = []) (hplan : b.plan t = none) :
    Complete t b := by
  refine .of_plan (by rw [hdid, hplan]; rfl) (by simp [hplan]) (by simp [hplan]) ?_
  intro n channel _ c bytes h
  rw [hdid] at h
  cases h

theorem Complete.one {n : Nat} {b : Block D} {o : Op D} {r : o.Res} (hdid : b.did = [⟨o, r⟩])
    (hplan : b.plan (.guest n) = some o) (hscan : o ≠ .outboxScan)
    (hpop : ∀ c n, o ≠ .outboxPop c n) : Complete (.guest n) b :=
  .of_plan (by rw [hdid, hplan]; rfl) (by simpa [hplan] using hscan) (by simpa [hplan] using hpop)
    nofun

/-- The assertion while a guest command is being read: nothing was done to
    the queues, and a command that will do something has sent nothing. -/
structure Receiving (rcv : List UInt8) (b : Block D) : Prop where
  received : b.received = rcv
  did : b.did = []
  sent : b.sent = [] ∨ ∃ opcode payload, rcv = opcode :: payload ∧
    ∀ more, commandOp (D := D) (Decoded.fromByte opcode) (payload ++ more) = none

theorem Receiving.plan {n : Nat} {opcode : UInt8} {payload : List UInt8} {b : Block D}
    (h : Receiving (opcode :: payload) b) :
    b.plan (.guest n) = commandOp (Decoded.fromByte opcode) payload := by
  simp only [Block.plan, h.received]

/-- A command with an operation on the queues has sent nothing before it. -/
theorem Receiving.unsent {opcode : UInt8} {payload : List UInt8} {b : Block D} {o : Op D}
    (h : Receiving (opcode :: payload) b)
    (hop : commandOp (Decoded.fromByte opcode) payload = some o) : b.sent = [] := by
  obtain hsent | ⟨opcode', payload', heq, hnone⟩ := h.sent
  · exact hsent
  · cases heq
    have := hnone []
    rw [List.append_nil, hop] at this
    cases this

theorem guest_iteration (n : Nat) :
    GuestRules (D := D) (iteration (.guest n)) Receiving (Ends (.guest n)) where
  aside := fun _ b e _ he => aside_iteration _ b e he
  read := fun _ _ _ hI => hI.did
  read_ok := fun rcv b n v hI _ => by
    refine ⟨congrArg (· ++ v.toList) hI.received, hI.did, hI.sent.imp id ?_⟩
    rintro ⟨opcode, payload, rfl, hnone⟩
    refine ⟨opcode, payload ++ v.toList, rfl, fun more => ?_⟩
    rw [List.append_assoc]
    exact hnone _
  read_error := fun _ _ _ _ _ _ _ => trivial
  write := fun _ _ _ _ _ _ => trivial
  write_ok := fun opcode payload b bs hI hnone _ =>
    ⟨hI.received, hI.did, .inr ⟨opcode, payload, rfl, hnone⟩⟩
  write_error := fun _ _ _ _ _ _ _ _ _ => trivial
  finish := fun _ _ _ hI hop => Complete.idle hI.did (hI.plan.trans hop)
  -- the operation of the command is the one of the plan, and nothing else is done
  push := fun _ _ b c x hI hop => by
    have hplan := hI.plan (n := n) |>.trans hop
    refine (guarded_iteration rfl hI.did hplan).bind fun _ b' hb' => ⟨trivial, fun _ _ => ?_⟩
    subst hb'
    exact Complete.one rfl hplan (fun h => nomatch h) (fun _ _ h => nomatch h)
  extend := fun _ _ b c bs hI hop => by
    have hplan := hI.plan (n := n) |>.trans hop
    refine (guarded_iteration rfl hI.did hplan).mono fun _ b' hb' => ?_
    subst hb'
    exact Complete.one rfl hplan (fun h => nomatch h) (fun _ _ h => nomatch h)
  -- SERREAD: what is sent is the reply to what the scan has found
  scan := fun _ b hI hop => by
    have hplan := hI.plan (n := n) |>.trans hop
    have hsent := hI.unsent hop
    rw [handleSerread_eq]
    refine ⟨trivial, fun _ _ =>
      ⟨fun _ => ⟨hI.did, hplan⟩, fun found _ => ⟨trivial, fun r _ => ⟨trivial, fun _ _ => ?_⟩⟩⟩⟩
    cases r with
    | error e => trivial
    | ok u =>
      have hdid : b.did ++ [⟨.outboxScan, found⟩] = [⟨.outboxScan, found⟩] := by
        rw [hI.did, List.nil_append]
      change Complete (.guest n) ⟨b.received, b.called, b.did ++ [⟨.outboxScan, found⟩],
        b.sent ++ serreadReply found⟩
      rw [hdid, hsent]
      exact ⟨congrArg Option.toList hplan.symm, fun _ h => (by cases h; rfl),
        fun _ _ _ h => (nomatch h), nofun⟩
  -- SERREADM: what is sent is what was popped, padded
  pop := fun _ _ b c k hI hop => by
    have hplan := hI.plan (n := n) |>.trans hop
    have hsent := hI.unsent hop
    refine (guarded_iteration rfl hI.did hplan).bind fun v b' hb' => ?_
    subst hb'
    rw [run_writeAll]
    refine ⟨trivial, fun r _ => ?_⟩
    cases r with
    | error e => trivial
    | ok u =>
      change Complete (.guest n) ⟨b.received, b.called, [⟨.outboxPop c k, v⟩],
        b.sent ++ v.toList.map (·.getD 0)⟩
      rw [hsent]
      exact ⟨congrArg Option.toList hplan.symm, fun _ h => (by cases h),
        fun _ _ _ h => (by cases h; rfl), nofun⟩

/-! ## Section 3: The host's side -/

theorem drainDid_plan (channel : UInt8) (bytes : List UInt8) :
    (drainDid (D := D) channel bytes).map Sigma.fst = (drainOp channel).toList := by
  unfold drainDid drainOp
  split <;> rfl

theorem drain_iteration {t : Tid} {b : Block D} (channel : UInt8) (hdid : b.did = [])
    (hplan : b.plan t = drainOp channel) :
    (drainVserial channel : Code D _).Obeys (iteration t) b (fun bytes b' =>
      b' = { b with did := drainDid channel bytes }) := by
  rw [drainOp] at hplan
  by_cases hc : channel.toNat < vserialChannels
  · rw [dif_pos hc] at hplan
    rw [drainVserial, dif_pos hc]
    refine (guarded_iteration rfl hdid hplan).mono fun r b' hb' => ?_
    rw [hb', drainDid, dif_pos hc]
  · rw [drainVserial, dif_neg hc]
    show b = _
    rw [drainDid, dif_neg hc, ← hdid]

theorem send_iteration {t : Tid} {b : Block D} (channel : UInt8) (bytes : List UInt8)
    (hdid : b.did = []) (hplan : b.plan t = sendOp channel bytes) :
    (sendToVserial channel bytes : Code D _).Obeys (iteration t) b (fun _ b' =>
      ∃ did, b' = { b with did := did } ∧ did.map Sigma.fst = (b.plan t).toList) := by
  rw [sendOp] at hplan
  by_cases hc : channel.toNat < vserialChannels
  · rw [dif_pos hc] at hplan
    rw [sendToVserial, dif_pos hc, hplan]
    exact (guarded_iteration rfl hdid hplan).mono fun r b' hb' => ⟨_, hb', rfl⟩
  · rw [dif_neg hc] at hplan
    rw [sendToVserial, dif_neg hc, hplan]
    exact ⟨[], by rw [← hdid], rfl⟩

theorem drainOp_host (channel : UInt8) :
    drainOp (D := D) channel ≠ some .outboxScan ∧
      ∀ c n, drainOp (D := D) channel ≠ some (.outboxPop c n) := by
  unfold drainOp
  split <;> simp

theorem sendOp_host (channel : UInt8) (bytes : List UInt8) :
    sendOp (D := D) channel bytes ≠ some .outboxScan ∧
      ∀ c n, sendOp (D := D) channel bytes ≠ some (.outboxPop c n) := by
  unfold sendOp
  split <;> simp

theorem outboundOnce_iteration (n : Nat) (channel : UInt8) :
    (outboundOnce channel : Code D _).Obeys (iteration (.attachOut n channel)) .new
      (Ends (.attachOut n channel)) := by
  refine (drain_iteration channel rfl rfl).bind fun bytes b' hb' => ?_
  subst hb'
  have hcomplete : Complete (D := D) (.attachOut n channel)
      ⟨[], none, drainDid channel bytes, bytes⟩ := by
    refine .of_plan (drainDid_plan channel bytes) (drainOp_host channel).1
      (drainOp_host channel).2 ?_
    intro _ _ _ c bytes' h
    unfold drainDid at h
    split at h
    · cases h
      rfl
    · cases h
  cases bytes with
  | nil =>
    by_cases hc : channel.toNat < vserialChannels
    · simp only [waitVserialInbox, dif_pos hc]
      exact ⟨trivial, fun _ _ => hcomplete⟩
    · simp only [waitVserialInbox, dif_neg hc]
      exact ⟨trivial, fun _ _ => hcomplete⟩
  | cons x bytes =>
    refine ⟨trivial, fun r _ => ?_⟩
    cases r with
    | error e => trivial
    | ok u => exact hcomplete

theorem inboundOnce_iteration (n : Nat) (channel : UInt8) :
    (inboundOnce channel : Code D _).Obeys (iteration (.attachIn n channel)) .new
      (Ends (.attachIn n channel)) := by
  refine ⟨rfl, fun r _ => ?_⟩
  cases r with
  | error e => trivial
  | ok buf =>
    cases buf with
    | nil => trivial
    | cons x buf =>
      refine (send_iteration channel (x :: buf) rfl rfl).bind fun _ b' hb' => ?_
      obtain ⟨did, rfl, hdid⟩ := hb'
      exact .of_plan hdid (sendOp_host channel _).1 (sendOp_host channel _).2 nofun

theorem apiCall_iteration (n : Nat) :
    (apiCall (D := D)).Obeys (iteration (.api n)) .new (Ends (.api n)) := by
  refine ⟨rfl, fun call _ => ?_⟩
  cases call with
  | drainVserial channel =>
    refine (drain_iteration channel rfl rfl).bind fun _ b' hb' => ?_
    subst hb'
    exact .of_plan (drainDid_plan channel _) (drainOp_host channel).1 (drainOp_host channel).2 nofun
  | sendToVserial channel bytes =>
    refine (send_iteration channel bytes rfl rfl).bind fun _ b' hb' => ?_
    obtain ⟨did, rfl, hdid⟩ := hb'
    exact .of_plan hdid (sendOp_host channel _).1 (sendOp_host channel _).2 nofun
  | vserialOutboxLen channel =>
    refine (aside_code_iteration (vserialOutboxLen_aside channel)).bind fun _ b' hb' => ?_
    subst hb'
    exact Complete.idle rfl rfl
  | isChannelOpen channel =>
    refine (aside_code_iteration (isChannelOpen_aside channel)).bind fun _ b' hb' => ?_
    subst hb'
    exact Complete.idle rfl rfl

theorem attachSession_iteration (n : Nat) :
    (attachSession (D := D) n).Obeys (iteration (.attach n)) .new (Ends (.attach n)) := by
  refine ⟨rfl, fun r _ => ?_⟩
  cases r with
  | error e => trivial
  | ok chByte => exact ⟨trivial, fun _ _ => ⟨trivial, fun _ _ => ⟨trivial, fun _ _ => trivial⟩⟩⟩

theorem controlOnce_iteration [VDisk D] [UnicodeTables] (n : Nat) :
    (controlOnce (D := D)).Obeys (iteration (.control n)) .new (Ends (.control n)) := by
  refine controlOnce_obeys rfl (fun _ _ => trivial) (fun _ => trivial)
    (fun _ _ => Complete.idle rfl rfl) fun line _ _ => ?_
  refine (aside_code_iteration (handleControlCommand_aside _)).mono fun response b' hb' => ?_
  subst hb'
  exact ⟨trivial, fun _ _ => trivial, Complete.idle rfl rfl⟩

/-- **Every iteration of every task** performs what it stands for. -/
theorem body_iteration [VDisk D] [UnicodeTables] (t : Tid) :
    (body (D := D) t).Obeys (iteration t) .new (Ends t) := by
  cases t with
  | guest n => exact (guest_iteration n).guestOnce_obeys ⟨rfl, rfl, .inl rfl⟩
  | attach n => exact attachSession_iteration n
  | attachIn n channel => exact inboundOnce_iteration n channel
  | attachOut n channel => exact outboundOnce_iteration n channel
  | control n => exact controlOnce_iteration n
  | api n => exact apiCall_iteration n

/-! ## Section 4: Complete calls -/

/-- The block of a sequence of events. -/
def blockOf (es : List (Event (E := Eff D) Eff.Res)) : Block D :=
  es.foldl (fun b ev => b.add ev.1 ev.2) .new

/-- A finished guard's scope is one operation. -/
theorem guarded_walk {m : Mode} {o : Op D} {r : o.Res} {es : List (Event (E := Eff D) Eff.Res)}
    (h : Prog.Walk (guarded m o) es (.ret r)) :
    es = [⟨.lock o.lock m, ()⟩, ⟨.op o, r⟩, ⟨.unlock o.lock, ()⟩] := by
  rw [guarded_eq] at h
  obtain ⟨-, heq⟩ | ⟨_, es, rfl, hop⟩ := h.eff_cases
  · cases heq
  obtain ⟨-, heq⟩ | ⟨r', es, rfl, hunlock⟩ := hop.eff_cases
  · cases heq
  obtain ⟨-, heq⟩ | ⟨_, es, rfl, hret⟩ := hunlock.eff_cases
  · cases heq
  cases hret.ret_eq
  rw [hret.ret_nil]

/-- A call of `drain_vserial` that returns `bytes` has taken them out of the
    inbox of its channel. -/
theorem drainVserial_walk {channel : UInt8} {bytes : List UInt8}
    {es : List (Event (E := Eff D) Eff.Res)}
    (h : Prog.Walk (drainVserial channel) es (.ret bytes)) :
    (blockOf es).did = drainDid channel bytes ∧
      (¬ channel.toNat < vserialChannels → bytes = []) := by
  by_cases hc : channel.toNat < vserialChannels
  · rw [drainVserial, dif_pos hc] at h
    rw [guarded_walk h, drainDid, dif_pos hc]
    exact ⟨rfl, fun hinvalid => absurd hc hinvalid⟩
  · rw [drainVserial, dif_neg hc] at h
    cases h.ret_eq
    rw [h.ret_nil, drainDid, dif_neg hc]
    exact ⟨rfl, fun _ => rfl⟩

/-- A call of `send_to_vserial` that has returned has appended its bytes to
    the outbox of its channel. -/
theorem sendToVserial_walk {channel : UInt8} {bytes : List UInt8}
    {es : List (Event (E := Eff D) Eff.Res)}
    (h : Prog.Walk (sendToVserial channel bytes) es (.ret ())) :
    (blockOf es).did.map Sigma.fst = (sendOp channel bytes).toList := by
  by_cases hc : channel.toNat < vserialChannels
  · rw [sendToVserial, dif_pos hc] at h
    rw [guarded_walk h, sendOp, dif_pos hc]
    rfl
  · rw [sendToVserial, dif_neg hc] at h
    rw [h.ret_nil, sendOp, dif_neg hc]
    rfl

/-- SERREADM on a channel that does not exist reads two bytes and sends as
    many zeros as it was asked for. -/
theorem handleSerreadm_walk {es : List (Event (E := Eff D) Eff.Res)}
    (h : Prog.Walk ((handleSerreadm (D := D)).run >>= fun r => .ret (flowOf r)) es (.ret .again)) :
    ∃ (p : Vector UInt8 2) (es' : List (Event (E := Eff D) Eff.Res)),
      es = ⟨.io (.readExact 2), .ok p⟩ :: es' ∧ (¬ (byte0 p).toNat < vserialChannels →
        es' = [⟨.io (.writeAll (List.replicate (byte1 p).toNat 0)), .ok ()⟩]) := by
  rw [handleSerreadm, run_readExact_bind, Prog.eff_bind] at h
  obtain ⟨-, heq⟩ | ⟨r, es, rfl, hread⟩ := h.eff_cases
  · cases heq
  cases r with
  | error e => cases hread.ret_eq
  | ok p =>
    refine ⟨p, es, rfl, fun hc => ?_⟩
    dsimp only at hread
    rw [popPadded, dif_neg hc, run_call_bind, Prog.pure_eq, Prog.ret_bind, run_writeAll,
      Prog.eff_bind] at hread
    obtain ⟨-, heq⟩ | ⟨r, es, rfl, hwrite⟩ := hread.eff_cases
    · cases heq
    cases r with
    | error e => cases hwrite.ret_eq
    | ok u => rw [hwrite.ret_nil]

theorem foldl_received (es : List (Event (E := Eff D) Eff.Res)) (b : Block D) :
    ∃ more, (es.foldl (fun b ev => b.add ev.1 ev.2) b).received = b.received ++ more := by
  induction es generalizing b with
  | nil => exact ⟨[], (List.append_nil _).symm⟩
  | cons ev es ih =>
    obtain ⟨more, hmore⟩ := ih (b.add ev.1 ev.2)
    -- one event adds the bytes that it has read, or none
    obtain ⟨first, hfirst⟩ : ∃ first, (b.add ev.1 ev.2).received = b.received ++ first := by
      obtain ⟨e, r⟩ := ev
      cases e with
      | io i =>
        cases i with
        | readExact n =>
          cases r with
          | ok v => exact ⟨v.toList, rfl⟩
          | error e => exact ⟨[], (List.append_nil _).symm⟩
        | read n =>
          cases r with
          | ok bs => exact ⟨bs, rfl⟩
          | error e => exact ⟨[], (List.append_nil _).symm⟩
        | writeAll bs => cases r <;> exact ⟨[], (List.append_nil _).symm⟩
        | _ => exact ⟨[], (List.append_nil _).symm⟩
      | op o =>
        refine ⟨[], ?_⟩
        simp only [Block.add, List.append_nil]
        split <;> rfl
      | _ => exact ⟨[], (List.append_nil _).symm⟩
    refine ⟨first ++ more, ?_⟩
    rw [List.foldl_cons, hmore, hfirst, List.append_assoc]

theorem serreadm_padded {es : List (Event (E := Eff D) Eff.Res)} {opcode channel count : UInt8}
    (h : Prog.Walk guestOnce es (.ret .again))
    (hreceived : (blockOf es).received = [opcode, channel, count])
    (hopcode : Decoded.fromByte opcode = .op .serReadM)
    (hchannel : ¬ channel.toNat < vserialChannels) :
    (blockOf es).sent = List.replicate count.toNat 0 := by
  rw [guestOnce_eq] at h
  obtain ⟨-, heq⟩ | ⟨r, es, rfl, hread⟩ := h.eff_cases
  · cases heq
  cases r with
  | error e => cases hread.ret_eq
  | ok v =>
    -- the first byte received is the opcode
    obtain ⟨more, hmore⟩ := foldl_received es (Block.new.add (.io (.readExact 1)) (.ok v))
    have hbyte : byte0 v :: more = [opcode, channel, count] := by
      have hfirst : (Block.new.add (.io (.readExact 1)) (.ok v) : Block D).received = [byte0 v] :=
        toList_one v
      rw [← hreceived, ← List.singleton_append, ← hfirst, ← hmore]
      rfl
    cases hbyte
    dsimp only at hread
    rw [hopcode] at hread
    obtain ⟨p, es, rfl, hsent⟩ := handleSerreadm_walk hread
    let b : Block D := (Block.new.add (.io (.readExact 1)) (.ok v)).add (.io (.readExact 2)) (.ok p)
    have hb : b.received = [byte0 v, byte0 p, byte1 p] := by
      show ([] ++ v.toList) ++ p.toList = _
      rw [toList_one, toList_two]
      rfl
    obtain ⟨rest, hrest⟩ := foldl_received es b
    have hpayload : [byte0 v, byte0 p, byte1 p] ++ rest = [byte0 v, channel, count] := by
      rw [← hb, ← hrest, ← hreceived]
      rfl
    cases hpayload
    rw [hsent hchannel]
    rfl

/-! ## Section 5: Runs -/

/-- The effect changes a queue of channel `c`. -/
def Touches (c : Channel) : Event (E := Eff D) Eff.Res → Prop
  | ⟨.op (.inboxPushBack c' _), _⟩ | ⟨.op (.inboxExtend c' _), _⟩ => c' = c
  | ⟨.op (.inboxDrain c'), _⟩ => c' = c
  | ⟨.op (.outboxExtend c' _), _⟩ | ⟨.op (.outboxPop c' _), _⟩ => c' = c
  | ⟨.op .outboxScan, .byte c' _⟩ => c' = c
  | _ => False

/-- What one step does to the queues. -/
structure QueueStep (s s' : Server D) (ev : Event (E := Eff D) Eff.Res) : Prop where
  pushed : ∀ c b, ev = ⟨.op (.inboxPushBack c b), ()⟩ →
    s'.vserialInbox c = s.vserialInbox c ++ [b]
  /-- The payload of a SERWRITEM is appended in one piece. -/
  burst : ∀ c bs, ev = ⟨.op (.inboxExtend c bs), ()⟩ →
    s'.vserialInbox c = s.vserialInbox c ++ bs
  /-- So is a slice of `send_to_vserial`. -/
  slice : ∀ c bs, ev = ⟨.op (.outboxExtend c bs), ()⟩ →
    s'.vserialOutbox c = s.vserialOutbox c ++ bs
  drained : ∀ c bytes, ev = ⟨.op (.inboxDrain c), bytes⟩ →
    bytes = s.vserialInbox c ∧ s'.vserialInbox c = []
  /-- SERREAD gets the first byte. -/
  scanned : ∀ c b, ev = ⟨.op .outboxScan, .byte c b⟩ →
    s.vserialOutbox c = b :: s'.vserialOutbox c
  /-- SERREADM gets the front of its queue, then zeros. -/
  popped : ∀ c n v, ev = ⟨.op (.outboxPop c n), v⟩ →
    v.toList.map (·.getD 0) = (s.vserialOutbox c).take n ++
        List.replicate (n - (s.vserialOutbox c).length) 0 ∧
      v.toList.filterMap id = (s.vserialOutbox c).take n ∧
      s'.vserialOutbox c = (s.vserialOutbox c).drop n
  /-- A count reply of SERREAD removes nothing. -/
  counted : ∀ c n, ev = ⟨.op .outboxScan, .burst c n⟩ →
    s'.vserialInbox = s.vserialInbox ∧ s'.vserialOutbox = s.vserialOutbox
  framed : ∀ c, ¬ Touches c ev →
    s'.vserialInbox c = s.vserialInbox c ∧ s'.vserialOutbox c = s.vserialOutbox c

theorem op_framed (o : Op D) (s : Server D) (c : Channel) (h : ¬ Touches c ⟨.op o, (o.run s).1⟩) :
    (o.run s).2.vserialInbox c = s.vserialInbox c ∧
      (o.run s).2.vserialOutbox c = s.vserialOutbox c := by
  cases o with
  | inboxPushBack c' b => exact ⟨Function.update_of_ne (Ne.symm h) _ _, rfl⟩
  | inboxExtend c' bs => exact ⟨Function.update_of_ne (Ne.symm h) _ _, rfl⟩
  | inboxDrain c' => exact ⟨Function.update_of_ne (Ne.symm h) _ _, rfl⟩
  | outboxExtend c' bs => exact ⟨rfl, Function.update_of_ne (Ne.symm h) _ _⟩
  | outboxPop c' n => exact ⟨rfl, Function.update_of_ne (Ne.symm h) _ _⟩
  | outboxScan =>
    obtain ⟨-, hafter⟩ := scanOutbox_found s.vserialOutbox
    refine ⟨rfl, (congrFun hafter c).trans ?_⟩
    have hscan : (Op.outboxScan.run s).1 =
        (scanOutbox (List.finRange vserialChannels) s.vserialOutbox).1 := rfl
    rw [hscan] at h
    cases hf : (scanOutbox (List.finRange vserialChannels) s.vserialOutbox).1 with
    | empty => rfl
    | burst c' n => rfl
    | byte c' b =>
      rw [hf] at h
      exact Function.update_of_ne (Ne.symm h) _ _
  | _ => exact ⟨rfl, rfl⟩

theorem op_queueStep (o : Op D) (s : Server D) :
    QueueStep s (o.run s).2 ⟨.op o, (o.run s).1⟩ where
  pushed := fun c b h => by
    cases h
    exact Function.update_self ..
  burst := fun c bs h => by
    cases h
    exact Function.update_self ..
  slice := fun c bs h => by
    cases h
    exact Function.update_self ..
  drained := fun c bytes h => by
    cases h
    exact ⟨rfl, Function.update_self ..⟩
  scanned := fun c b h => by
    injection h with ho hr
    cases ho
    -- the byte that the scan returns is the front of its queue
    have hconserved := run_outbox c (.outboxScan : Op D) s
    rw [eq_of_heq hr] at hconserved
    simpa [outboxIn, outboxOut, Scan.taken] using hconserved
  popped := fun c n v h => by
    cases h
    refine ⟨popFronts_padded n _, popFronts_popped n _, ?_⟩
    exact (Function.update_self ..).trans (popFronts_snd n _)
  counted := fun c n h => by
    injection h with ho hr
    cases ho
    obtain ⟨-, hafter⟩ := scanOutbox_found s.vserialOutbox
    have hfound : (scanOutbox (List.finRange vserialChannels) s.vserialOutbox).1 = .burst c n :=
      eq_of_heq hr
    rw [hfound] at hafter
    exact ⟨rfl, hafter⟩
  framed := op_framed o s

/-- **Every step** does to the queues what its effect says. -/
theorem step_queueStep [VDisk D] [UnicodeTables] {env : Env D F N} {c c' : SysConfig D F N}
    {t : Tid} {ev : Event (E := Eff D) Eff.Res} (h : Step (system env) c (some (t, ev)) c') :
    QueueStep c.world.server c'.world.server ev := by
  obtain ⟨e, r⟩ := ev
  cases e with
  | op o =>
    obtain ⟨rfl, hs⟩ := step_op h
    rw [hs]
    exact op_queueStep o _
  | _ =>
    have hs : c'.world.server = c.world.server := step_server h
    rw [hs]
    exact ⟨nofun, nofun, nofun, nofun, nofun, nofun, nofun, fun _ _ => ⟨rfl, rfl⟩⟩

/-- The channel that a command names. -/
def commandChannel : Decoded → List UInt8 → Option UInt8
  | .fastWrite channel, _ => some channel
  | .op .serWrite, channel :: _ | .op .serWriteM, channel :: _ => some channel
  | .op .serReadM, channel :: _ => some channel
  | _, _ => none

theorem pushOp_touches {channel byte : UInt8} {o : Op D} (h : pushOp channel byte = some o)
    {c : Channel} {r : o.Res} (ht : Touches c ⟨.op o, r⟩) : c.val = channel.toNat := by
  unfold pushOp at h
  split at h
  · cases h
    exact congrArg Fin.val ht.symm
  · cases h

/-- The operation of a command that names a channel touches that channel only. -/
theorem commandOp_touches {d : Decoded} {payload : List UInt8} {o : Op D} {k : UInt8}
    (hop : commandOp d payload = some o) (hk : commandChannel d payload = some k) {c : Channel}
    {r : o.Res} (ht : Touches c ⟨.op o, r⟩) : c.val = k.toNat := by
  cases d with
  | unknown b => cases hk
  | fastWrite channel =>
    cases hk
    rcases payload with _ | ⟨byte, _ | ⟨x, rest⟩⟩
    · cases hop
    · exact pushOp_touches hop ht
    · cases hop
  | op o' =>
    -- a payload of the wrong length has no operation
    cases o' with
    | serWrite =>
      rcases payload with _ | ⟨channel, _ | ⟨byte, _ | ⟨x, rest⟩⟩⟩
      · cases hop
      · cases hop
      · cases hk
        exact pushOp_touches hop ht
      · cases hop
    | serWriteM =>
      rcases payload with _ | ⟨channel, _ | ⟨count, buf⟩⟩
      · cases hop
      · cases hop
      · cases hk
        by_cases h : k.toNat < vserialChannels ∧ buf.length = count.toNat
        · cases (dif_pos h).symm.trans hop
          exact congrArg Fin.val (Eq.symm ht)
        · cases (dif_neg h).symm.trans hop
    | serReadM =>
      rcases payload with _ | ⟨channel, _ | ⟨count, _ | ⟨x, rest⟩⟩⟩
      · cases hop
      · cases hop
      · cases hk
        by_cases h : k.toNat < vserialChannels
        · cases (dif_pos h).symm.trans hop
          exact congrArg Fin.val (Eq.symm ht)
        · cases (dif_neg h).symm.trans hop
      · cases hop
    | _ => cases hk

/-- The channel that an iteration of task `t` is about. -/
def Block.channel (t : Tid) (b : Block D) : Option UInt8 :=
  match t with
  | .guest _ =>
    match b.received with
    | [] => none
    | opcode :: payload => commandChannel (Decoded.fromByte opcode) payload
  | .attachIn _ channel | .attachOut _ channel => some channel
  | .api _ =>
    match b.called with
    | some (.drainVserial channel) | some (.sendToVserial channel _) => some channel
    | some (.vserialOutboxLen channel) | some (.isChannelOpen channel) => some channel
    | none => none
  | .attach _ | .control _ => none

theorem drainOp_touches {channel : UInt8} {o : Op D} (h : drainOp channel = some o) {c : Channel}
    {r : o.Res} (ht : Touches c ⟨.op o, r⟩) : c.val = channel.toNat := by
  unfold drainOp at h
  split at h
  · cases h
    exact congrArg Fin.val ht.symm
  · cases h

theorem sendOp_touches {channel : UInt8} {bytes : List UInt8} {o : Op D}
    (h : sendOp channel bytes = some o) {c : Channel} {r : o.Res} (ht : Touches c ⟨.op o, r⟩) :
    c.val = channel.toNat := by
  unfold sendOp at h
  split at h
  · cases h
    exact congrArg Fin.val ht.symm
  · cases h

theorem plan_touches {t : Tid} {b : Block D} {o : Op D} {k : UInt8} (hplan : b.plan t = some o)
    (hk : b.channel t = some k) {c : Channel} {r : o.Res} (ht : Touches c ⟨.op o, r⟩) :
    c.val = k.toNat := by
  -- every task has its plan: a command, the bytes just read, a drain, or a call
  cases t with
  | guest n =>
    simp only [Block.plan, Block.channel] at hplan hk
    cases hreceived : b.received with
    | nil =>
      rw [hreceived] at hk
      cases hk
    | cons opcode payload =>
      rw [hreceived] at hplan hk
      exact commandOp_touches hplan hk ht
  | attachIn n channel =>
    cases hk
    simp only [Block.plan] at hplan
    split at hplan
    · cases hplan
    · exact sendOp_touches hplan ht
  | attachOut n channel =>
    cases hk
    exact drainOp_touches hplan ht
  | api n =>
    simp only [Block.plan, Block.channel] at hplan hk
    cases hcalled : b.called with
    | none =>
      rw [hcalled] at hk
      cases hk
    | some call =>
      rw [hcalled] at hplan hk
      cases call with
      | drainVserial channel =>
        cases hk
        exact drainOp_touches hplan ht
      | sendToVserial channel bytes =>
        cases hk
        exact sendOp_touches hplan ht
      | vserialOutboxLen channel => cases hplan
      | isChannelOpen channel => cases hplan
  | attach n => cases hk
  | control n => cases hk

theorem touches_onQueues {c : Channel} {o : Op D} {r : o.Res} (h : Touches c ⟨.op o, r⟩) :
    o.onQueues = true := by
  cases o <;> first | rfl | exact h.elim

theorem add_did_mem {b : Block D} {e : Eff D} {r : e.Res} {x : (o : Op D) × o.Res}
    (h : x ∈ b.did) : x ∈ (b.add e r).did := by
  cases e with
  | op o =>
    simp only [Block.add]
    split
    · exact List.mem_append_left _ h
    · exact h
  | io i =>
    cases i with
    | readExact n => cases r <;> exact h
    | read n => cases r <;> exact h
    | writeAll bs => cases r <;> exact h
    | _ => exact h
  | _ => exact h

/-- Every operation on the queues is in the block. -/
theorem mem_blockOf_did {es : List (Event (E := Eff D) Eff.Res)} {o : Op D} {r : o.Res}
    (h : ⟨.op o, r⟩ ∈ es) (ho : o.onQueues = true) : ⟨o, r⟩ ∈ (blockOf es).did := by
  induction es using List.reverseRecOn with
  | nil => cases h
  | append_singleton es ev ih =>
    rw [blockOf, List.foldl_append]
    rcases List.mem_append.mp h with h | h
    · exact add_did_mem (ih h)
    · cases List.mem_singleton.mp h
      simp [Block.add, ho]

/-- A finished, or unfinished, iteration of task `t` keeps to the channel that
    it is about. -/
def KeepsToChannel (t : Tid) (es : List (Event (E := Eff D) Eff.Res)) : Prop :=
  ∀ k, (blockOf es).channel t = some k →
    ∀ c : Channel, c.val ≠ k.toNat → ∀ ev ∈ es, ¬ Touches c ev

theorem keepsToChannel {t : Tid} {es : List (Event (E := Eff D) Eff.Res)}
    (h : Partial t (blockOf es)) : KeepsToChannel t es := by
  rintro k hk c hc ⟨e, r⟩ hev ht
  cases e with
  | op o =>
    have hmem := mem_blockOf_did hev (touches_onQueues ht)
    obtain hdid | ⟨o', r', hplan, hdid⟩ := h
    · rw [hdid] at hmem
      cases hmem
    · rw [hdid, List.mem_singleton] at hmem
      cases hmem
      exact hc (plan_touches hplan hk ht)
  | _ => exact ht

theorem Complete.partially {t : Tid} {b : Block D} (h : Complete t b) : Partial t b := by
  have hdid := h.did
  cases hplan : b.plan t with
  | none =>
    rw [hplan, Option.toList_none, List.map_eq_nil_iff] at hdid
    exact .inl hdid
  | some o =>
    rw [hplan, Option.toList_some, List.map_eq_singleton_iff] at hdid
    obtain ⟨⟨o', r⟩, hdid, rfl⟩ := hdid
    exact .inr ⟨o', r, hplan, hdid⟩

theorem plan_congr {t : Tid} {b b' : Block D} (hrcv : b'.received = b.received)
    (hcalled : b'.called = b.called) : b'.plan t = b.plan t := by
  cases t <;> simp only [Block.plan, hrcv, hcalled]

/-- Allowed effects keep an iteration in progress well-formed. -/
theorem partial_add (t : Tid) (b : Block D) (e : Eff D) (r : e.Res) (hb : Partial t b)
    (hallow : (iteration t).allows b e) : Partial t (b.add e r) := by
  cases e with
  | op o =>
    by_cases ho : o.onQueues = true
    · obtain ⟨hdid, hplan⟩ := hallow ho
      have hadd : b.add (.op o) r = { b with did := b.did ++ [⟨o, r⟩] } := if_pos ho
      rw [hadd]
      exact .inr ⟨o, r, (plan_congr rfl rfl).trans hplan, by simp [hdid]⟩
    · simpa [Block.add, ho] using hb
  | io i =>
    cases i with
    | writeAll bs => cases r <;> exact hb
    | readExact n => cases r <;> exact .inl hallow
    | read n => cases r <;> exact .inl hallow
    | nextLine => exact hb
    | nextCall => exact .inl hallow
  | _ => exact hb

/-- A finished iteration of the loop of task `t`. -/
structure FifoRound (t : Tid) (es : List (Event (E := Eff D) Eff.Res)) : Prop where
  complete : Complete t (blockOf es)
  channel  : KeepsToChannel t es
  /-- SERREADM on a channel that does not exist is answered with zeros. -/
  padded   : ∀ n, t = .guest n → ∀ opcode channel count,
    (blockOf es).received = [opcode, channel, count] →
    Decoded.fromByte opcode = .op .serReadM → ¬ channel.toNat < vserialChannels →
    (blockOf es).sent = List.replicate count.toNat 0

theorem walk_fifoRound [VDisk D] [UnicodeTables] {t : Tid} {es : List (Event (E := Eff D) Eff.Res)}
    (h : Prog.Walk (body t) es (.ret .again)) : FifoRound t es := by
  have hcomplete : Complete t (blockOf es) := h.obeys (fun _ _ _ => trivial) (body_iteration t)
  refine ⟨hcomplete, keepsToChannel hcomplete.partially, ?_⟩
  rintro n rfl opcode channel count hreceived hopcode hchannel
  exact serreadm_padded h hreceived hopcode hchannel

theorem walk_partial [VDisk D] [UnicodeTables] {t : Tid} {es : List (Event (E := Eff D) Eff.Res)}
    {p : Code D (Flow Exit)} (h : Prog.Walk (body t) es p) : Partial t (blockOf es) :=
  h.invariant (I := Partial t) (fun b e r hb hallow _ => partial_add t b e r hb hallow)
    (fun _ _ _ => trivial) (body_iteration t) (.inl rfl)

/-- Iteration by iteration of its loop, a task has done what it stands for. -/
structure FifoRounds [VDisk D] [UnicodeTables] (t : Tid) (es : List (Event (E := Eff D) Eff.Res))
    (rounds : List (List (Event (E := Eff D) Eff.Res)))
    (cur : List (Event (E := Eff D) Eff.Res)) : Prop
    extends Iterations (body t) es rounds cur where
  finished : ∀ b ∈ rounds, FifoRound t b
  underway : Partial t (blockOf cur) ∧ KeepsToChannel t cur
  /-- The iteration under way may have finished as well. -/
  last     : Prog.Walk (body t) cur (.ret .again) → FifoRound t cur

/-- What holds of the queues after a run from `w`. -/
structure Fifos [VDisk D] [UnicodeTables] (env : Env D F N)
    (ok : SysConfig D F N → SysLabel D → Prop) (w : World D F N) (tr : List (SysLabel D))
    (s : Server D) : Prop where
  /-- What a queue held and what was appended to it is what was taken out of
      it and what it holds. -/
  inbox  : ∀ ch, w.server.vserialInbox ch ++ traffic (fun o _ => inboxIn ch o) tr =
    traffic (inboxOut ch) tr ++ s.vserialInbox ch
  outbox : ∀ ch, w.server.vserialOutbox ch ++ traffic (fun o _ => outboxIn ch o) tr =
    traffic (outboxOut ch) tr ++ s.vserialOutbox ch
  steps  : ∀ tr₁ l tr₂, tr = tr₁ ++ l :: tr₂ → ∃ c₁ c₂,
    Run (system env) ok (Config.initial w) tr₁ c₁ ∧ Step (system env) c₁ (some l) c₂ ∧
      QueueStep c₁.world.server c₂.world.server l.2
  tasks  : ∀ t, ∃ rounds cur, FifoRounds t (eventsOf t tr) rounds cur

/-- **The vserial queues are FIFOs.** In every run, the content that a queue
    started with and what was appended to it is what was taken out of it and
    what it holds; every step does to the queues what its effect says; and
    every task performs, in each iteration of its loop, the one queue operation
    of its command or call on the channel that it names, and none otherwise,
    and sends what that has returned.  A call of `drain_vserial` returns what
    it takes out, and a call of `send_to_vserial` appends its bytes. -/
theorem vserial_fifo [VDisk D] [UnicodeTables] (env : Env D F N)
    {ok : SysConfig D F N → SysLabel D → Prop} (w : World D F N) {c : SysConfig D F N}
    {tr : List (SysLabel D)} (hrun : Run (system env) ok (Config.initial w) tr c) :
    Fifos env ok w tr c.world.server ∧
    (∀ channel bytes (es : List (Event (E := Eff D) Eff.Res)),
      Prog.Walk (drainVserial channel) es (.ret bytes) →
      (blockOf es).did = drainDid channel bytes ∧
        (¬ channel.toNat < vserialChannels → bytes = [])) ∧
    ∀ channel bytes (es : List (Event (E := Eff D) Eff.Res)),
      Prog.Walk (sendToVserial channel bytes) es (.ret ()) →
      (blockOf es).did.map Sigma.fst = (sendOp channel bytes).toList := by
  refine ⟨⟨fun ch => ?_, fun ch => ?_, ?_, fun t => ?_⟩, fun _ _ _ => drainVserial_walk,
    fun _ _ _ => sendToVserial_walk⟩
  · exact run_conserves (fun s => s.vserialInbox ch) (inboxIn ch) (inboxOut ch) (run_inbox ch) hrun
  · exact run_conserves (fun s => s.vserialOutbox ch) (outboxIn ch) (outboxOut ch) (run_outbox ch)
      hrun
  · rintro tr₁ ⟨t, ev⟩ tr₂ rfl
    obtain ⟨c₁, c₂, hrun₁, _, hstep, _⟩ := hrun.split
    exact ⟨c₁, c₂, hrun₁, hstep, step_queueStep hstep⟩
  · obtain ⟨rounds, cur, hiterations⟩ := (hrun.loops t).iterations
    obtain ⟨p, hcur⟩ := hiterations.part
    have hunder := walk_partial hcur
    exact ⟨rounds, cur, hiterations, fun b hb => walk_fifoRound (hiterations.whole b hb),
      ⟨hunder, keepsToChannel hunder⟩, walk_fifoRound⟩

/-- A burst of SERWRITEM and a SERREADM on channel 1, a SERREADM on channel
    20, and a client that is attached to channel 1 and sends two bytes. -/
def fifoPeers : Tid → Peer
  | .guest 0 => .sending [0x64, 0x01, 0x03, 0x41, 0x42, 0x43, 0x63, 0x01, 0x03]
  | .guest 1 => .sending [0x63, 0x14, 0x02]
  | .attach 0 => .sending [0x01]
  | .attachIn 0 1 => .sending [0x58, 0x59]
  | _ => .sending []

/-- The client is attached while the guest sends, and waits for its lock. -/
def fifoTurns : List Tid :=
  List.replicate 6 (Tid.guest 0) ++ List.replicate 4 (Tid.attach 0) ++
    List.replicate 6 (Tid.attachIn 0 1) ++ List.replicate 2 (Tid.attachOut 0 1) ++
    List.replicate 5 (Tid.guest 1) ++ List.replicate 2 (Tid.guest 0) ++
    List.replicate 5 (Tid.attachOut 0 1) ++ List.replicate 7 (Tid.guest 0)

def fifoStart : ScriptConfig := Config.initial (World.initial (Server.new Unit) () fifoPeers)

def fifoLabels : List (SysLabel Unit) :=
  scheduleLabels (plainSystem scripted) scriptedPoll scriptedStart fifoStart fifoTurns

/-- The burst goes to the client in one piece.  What the client has sent goes
    to the guest, with a zero for the byte that is missing, and the other
    guest gets zeros only. -/
theorem vserial_fifo_session : let c := play fifoPeers fifoTurns
    Run (plainSystem scripted) anyStep fifoStart fifoLabels c ∧
    traffic (fun o _ => inboxIn 1 o) fifoLabels = [0x41, 0x42, 0x43] ∧
    traffic (inboxOut 1) fifoLabels = [0x41, 0x42, 0x43] ∧
    traffic (fun o _ => outboxIn 1 o) fifoLabels = [0x58, 0x59] ∧
    traffic (outboxOut 1) fifoLabels = [0x58, 0x59] ∧
    (c.world.net (.attachOut 0 1)).received = [0x41, 0x42, 0x43] ∧
    (c.world.net (.guest 0)).received = [0x58, 0x59, 0x00] ∧
    (c.world.net (.guest 1)).received = [0x00, 0x00] ∧
    @Fifos Unit Unit (Tid → Peer) noDisk asciiTables scripted anyStep
      (World.initial (Server.new Unit) () fifoPeers) fifoLabels c.world.server := by
  intro c
  have hrun : Run (plainSystem scripted) anyStep fifoStart fifoLabels c :=
    run_schedule scriptedPoll_spec scriptedStart_spec _ _ (scheduleMeets_any _ _)
  exact ⟨hrun, rfl, rfl, rfl, rfl, rfl, rfl, rfl,
    (@vserial_fifo Unit Unit (Tid → Peer) noDisk asciiTables scripted anyStep _ _ _ hrun).1⟩

end DriveWire
