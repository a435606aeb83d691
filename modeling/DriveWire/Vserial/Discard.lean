import DriveWire.Server.Script
import DriveWire.Server.Status
import DriveWire.Vserial.Queues

/-! # Queued Bytes and Failing Writes

    SERREAD, SERREADM and the outbound loop of an attach session take bytes
    out of a queue and then write them.  When the write fails, the bytes that
    were taken are gone: the queue is kept exactly if nothing was taken. -/

namespace DriveWire

open Async Server Solo

variable {D F : Type}

/-! ## Section 1: A transport that fails -/

/-- Bytes that another task adds to a queue. -/
inductive Append where
  | toInbox  : Channel → List UInt8 → Append
  | toOutbox : Channel → List UInt8 → Append

def Append.op : Append → Op D
  | toInbox c bs => .inboxExtend c bs
  | toOutbox c bs => .outboxExtend c bs

/-- Another task adds bytes, if the lock of the queue is free. -/
def World.append (w : World D F Wire) (a : Append) : World D F Wire :=
  if w.holders (a.op (D := D)).lock = [] then { w with server := (a.op.run w.server).2 } else w

/-- The machine of a session whose writes fail with `err`, after other tasks
    have done `meanwhile`. -/
def answerBroken (host : Host D F) (t : Tid) (err : IoError) (meanwhile : List Append) :
    (e : Eff D) → World D F Wire → Option (e.Res × World D F Wire)
  | .io (.writeAll _), w => some (.error err, meanwhile.foldl World.append w)
  | e, w => answer host false t e w

/-- What takes bytes out of a queue to write them. -/
inductive Exchange where
  | serread  : Exchange
  | serreadm : UInt8 → UInt8 → Exchange
  /-- One round of the outbound loop of an attach session. -/
  | outbound : UInt8 → Exchange

/-- The bytes that the peer sends for it. -/
def Exchange.input : Exchange → List UInt8
  | serreadm channel count => [channel, count]
  | _ => []

/-- The code that the server runs. -/
def Exchange.code : Exchange → Code D (Flow Exit)
  | serread => handleSerread.run >>= fun r => return flowOf r
  | serreadm _ _ => handleSerreadm.run >>= fun r => return flowOf r
  | outbound channel => outboundOnce channel

/-- The queue still holds all its bytes at its front, whenever the write
    fails, and whatever is added to the queues before that. -/
def Keeps (host : Host D F) (t : Tid) (x : Exchange) (s : State D F) : Prop :=
  ∀ (err : IoError) (meanwhile : List Append) (a : Flow Exit) (w : World D F Wire),
    x.code.eval (answerBroken host t err meanwhile) (s.world ⟨x.input, []⟩) = some (a, w) →
      ∀ c, s.server.vserialInbox c <+: w.server.vserialInbox c ∧
        s.server.vserialOutbox c <+: w.server.vserialOutbox c

/-- There is no byte to be taken: SERREAD finds all queues empty or replies
    with a count, SERREADM asks for no bytes or finds none, and the outbound
    loop finds the inbox empty. -/
def Exchange.TakesNothing (server : Server D) : Exchange → Prop
  | serread => ∀ c, Lowest server.vserialOutbox c → 3 ≤ (server.vserialOutbox c).length
  | serreadm channel count =>
    ∀ h : channel.toNat < vserialChannels,
      count = 0 ∨ server.vserialOutbox ⟨channel.toNat, h⟩ = []
  | outbound channel =>
    ∀ h : channel.toNat < vserialChannels, server.vserialInbox ⟨channel.toNat, h⟩ = []

/-! ## Section 2: What is left after a failure -/

theorem append_grows (w : World D F Wire) (a : Append) (c : Channel) :
    w.server.vserialInbox c <+: (w.append a).server.vserialInbox c ∧
      w.server.vserialOutbox c <+: (w.append a).server.vserialOutbox c := by
  rw [World.append]
  split
  · cases a with
    | toInbox c' bs =>
      refine ⟨?_, List.prefix_rfl⟩
      by_cases hc : c = c'
      · subst hc
        simp [Append.op, Op.run]
      · simp [Append.op, Op.run, hc]
    | toOutbox c' bs =>
      refine ⟨List.prefix_rfl, ?_⟩
      by_cases hc : c = c'
      · subst hc
        simp [Append.op, Op.run]
      · simp [Append.op, Op.run, hc]
  · exact ⟨List.prefix_rfl, List.prefix_rfl⟩

/-- Other tasks only add to the queues. -/
theorem appends_grow (meanwhile : List Append) (w : World D F Wire) (c : Channel) :
    w.server.vserialInbox c <+: (meanwhile.foldl World.append w).server.vserialInbox c ∧
      w.server.vserialOutbox c <+: (meanwhile.foldl World.append w).server.vserialOutbox c := by
  induction meanwhile generalizing w with
  | nil => exact ⟨List.prefix_rfl, List.prefix_rfl⟩
  | cons a meanwhile ih =>
    have hfirst := append_grows w a c
    have hrest := ih (w.append a)
    exact ⟨hfirst.1.trans hrest.1, hfirst.2.trans hrest.2⟩

/-- The data after the bytes have been taken, and before they are written. -/
def Exchange.taken (x : Exchange) (server : Server D) : Server D :=
  match x with
  | serread => (Op.outboxScan.run server).2
  | serreadm channel count =>
    if h : channel.toNat < vserialChannels then
      ((Op.outboxPop ⟨channel.toNat, h⟩ count.toNat).run server).2
    else server
  | outbound channel =>
    if h : channel.toNat < vserialChannels then
      ((Op.inboxDrain ⟨channel.toNat, h⟩).run server).2
    else server

section broken

variable (host : Host D F) (t : Tid) (err : IoError) (meanwhile : List Append)

theorem eval_broken_guarded (m : Mode) (o : Op D) (s : State D F) (wire : Wire) :
    (guarded m o).eval (answerBroken host t err meanwhile) (s.world wire) =
      some ((o.run s.server).1, { s with server := (o.run s.server).2 }.world wire) := by
  simp [guarded_eq, answerBroken, answer, State.world, World.acquire, World.release]

/-- SERREAD holds the lock of the outbox while it writes. -/
theorem eval_broken_serread (s : State D F) (wire : Wire) : ∃ a w,
    (Exchange.code .serread).eval (answerBroken host t err meanwhile) (s.world wire) =
        some (a, World.release (meanwhile.foldl World.append w) t .vserialOutbox) ∧
      w.server = (Op.outboxScan.run s.server).2 := by
  refine ⟨.done (.session (.io err)),
    { (s.world wire).acquire t .vserialOutbox .exclusive with
      server := (Op.outboxScan.run s.server).2 }, ?_, rfl⟩
  rw [Exchange.code, handleSerread_eq]
  simp [answerBroken, answer, State.world, World.acquire, flowOf]

theorem eval_broken_popPadded (channel count : UInt8) (s : State D F) (wire : Wire) : ∃ buf,
    (popPadded channel count).eval (answerBroken host t err meanwhile) (s.world wire) =
      some (buf,
        { s with server := (Exchange.serreadm channel count).taken s.server }.world wire) := by
  by_cases h : channel.toNat < vserialChannels
  · rw [popPadded, dif_pos h, Prog.eval_bind, eval_broken_guarded, Exchange.taken, dif_pos h]
    exact ⟨_, rfl⟩
  · rw [popPadded, dif_neg h, Exchange.taken, dif_neg h]
    exact ⟨_, rfl⟩

theorem eval_broken_serreadm (channel count : UInt8) (s : State D F) : ∃ a w,
    (Exchange.code (.serreadm channel count)).eval (answerBroken host t err meanwhile)
        (s.world ⟨[channel, count], []⟩) = some (a, meanwhile.foldl World.append w) ∧
      w.server = (Exchange.serreadm channel count).taken s.server := by
  have hanswer : answerBroken host t err meanwhile (.io (.readExact 2))
      (s.world ⟨[channel, count], []⟩) = some (.ok #v[channel, count], s.world ⟨[], []⟩) := by
    simp [answerBroken, answer, State.world, Wire.answer]
    rfl
  refine ⟨.done (.session (.io err)),
    { s with server := (Exchange.serreadm channel count).taken s.server }.world ⟨[], []⟩, ?_, rfl⟩
  rw [Exchange.code, handleSerreadm, run_readExact_bind, Prog.eff_bind, Prog.eval_eff, hanswer]
  obtain ⟨buf, hpop⟩ := eval_broken_popPadded host t err meanwhile channel count s ⟨[], []⟩
  show ((call (popPadded channel count) >>= fun buf => writeAll buf).run >>= fun r =>
    .ret (flowOf r)).eval _ _ = _
  rw [run_call_bind, Prog.bind_bind, Prog.eval_bind, hpop, Option.bind_some, run_writeAll]
  rfl

/-- The outbound loop waits if it finds no bytes. -/
theorem eval_broken_outbound (channel : UInt8) (s : State D F) (wire : Wire) :
    (outboundOnce channel).eval (answerBroken host t err meanwhile) (s.world wire) = none ∧
        (Exchange.outbound channel).TakesNothing s.server ∨
      ∃ a w, (outboundOnce channel).eval (answerBroken host t err meanwhile) (s.world wire) =
          some (a, meanwhile.foldl World.append w) ∧
        w.server = (Exchange.outbound channel).taken s.server := by
  by_cases h : channel.toNat < vserialChannels
  · rw [outboundOnce, Prog.eval_bind, drainVserial, dif_pos h, eval_broken_guarded]
    cases hinbox : s.server.vserialInbox ⟨channel.toNat, h⟩ with
    | nil =>
      refine .inl ⟨?_, fun _ => hinbox⟩
      simp [Op.run, hinbox, waitVserialInbox, h, await, answerBroken, answer]
    | cons b bs =>
      refine .inr ⟨.done .closed,
        { s with server := (Exchange.outbound channel).taken s.server }.world wire, ?_, rfl⟩
      simp [Op.run, hinbox, await, answerBroken, Exchange.taken, h]
  · refine .inl ⟨?_, fun hlt => absurd hlt h⟩
    rw [outboundOnce, Prog.eval_bind, drainVserial, dif_neg h]
    simp [waitVserialInbox, h, await, answerBroken, answer]

end broken

/-! ## Section 3: When nothing is lost -/

/-- All queues still have their bytes at the front. -/
def Grown (server server' : Server D) : Prop :=
  ∀ c, server.vserialInbox c <+: server'.vserialInbox c ∧
    server.vserialOutbox c <+: server'.vserialOutbox c

theorem Lowest.unique {out : Channel → List UInt8} {c c' : Channel} (h : Lowest out c)
    (h' : Lowest out c') : c' = c := by
  rcases lt_trichotomy c' c with hlt | heq | hlt
  · exact absurd (h.2 c' hlt) h'.1
  · exact heq
  · exact absurd (h'.2 c hlt) h.1

/-- A part of a list from which something was dropped at the front is not
    the list itself. -/
theorem drop_prefix_iff (bs : List UInt8) (n : Nat) : bs <+: bs.drop n ↔ n = 0 ∨ bs = [] := by
  constructor
  · intro h
    have hlen := h.length_le
    rw [List.length_drop] at hlen
    rw [← List.length_eq_zero_iff]
    omega
  · rintro (rfl | rfl) <;> simp

theorem serread_grown_iff (server : Server D) :
    Grown server (Exchange.serread.taken server) ↔ Exchange.serread.TakesNothing server := by
  obtain ⟨hfound, hafter⟩ := scanOutbox_found server.vserialOutbox
  have htaken : (Exchange.serread.taken server).vserialOutbox =
      afterScan server.vserialOutbox
        (scanOutbox (List.finRange vserialChannels) server.vserialOutbox).1 := hafter
  generalize (scanOutbox (List.finRange vserialChannels) server.vserialOutbox).1 = scan
    at hfound htaken
  -- only the reply with one byte takes anything out of the queue
  cases scan with
  | empty =>
    refine iff_of_true (fun c => ⟨List.prefix_rfl, ?_⟩) fun c hc => absurd (hfound c) hc.1
    rw [htaken]
    exact List.prefix_rfl
  | burst c n =>
    obtain ⟨hlowest, hlen, -⟩ := hfound
    refine iff_of_true (fun c => ⟨List.prefix_rfl, ?_⟩) fun c' hc' => ?_
    · rw [htaken]
      exact List.prefix_rfl
    · rwa [hlowest.unique hc']
  | byte c b =>
    obtain ⟨hlowest, hlen, -⟩ := hfound
    refine iff_of_false (fun hgrown => ?_) fun hnothing => ?_
    · have hc := (hgrown c).2
      rw [htaken, afterScan, Function.update_self, ← List.drop_one, drop_prefix_iff] at hc
      rcases hc with hone | hempty
      · cases hone
      · exact hlowest.1 hempty
    · have := hnothing c hlowest
      omega

/-- Dropping bytes at the front of one queue keeps the queues exactly if there
    was nothing to drop. -/
theorem grown_drop_iff {q q' : Channel → List UInt8} {c : Channel} {n : Nat}
    (h : q' = Function.update q c ((q c).drop n)) :
    (∀ c', q c' <+: q' c') ↔ n = 0 ∨ q c = [] := by
  rw [← drop_prefix_iff, h]
  constructor
  · intro hall
    have hc := hall c
    rwa [Function.update_self] at hc
  · intro hc c'
    by_cases hne : c' = c
    · subst hne
      rwa [Function.update_self]
    · rw [Function.update_of_ne hne]

theorem serreadm_grown_iff (channel count : UInt8) (server : Server D) :
    Grown server ((Exchange.serreadm channel count).taken server) ↔
      (Exchange.serreadm channel count).TakesNothing server := by
  by_cases h : channel.toNat < vserialChannels
  · have htaken : ((Exchange.serreadm channel count).taken server).vserialOutbox =
        Function.update server.vserialOutbox ⟨channel.toNat, h⟩
          ((server.vserialOutbox ⟨channel.toNat, h⟩).drop count.toNat) := by
      rw [Exchange.taken, dif_pos h, ← popFronts_snd]
      rfl
    have hinbox : ((Exchange.serreadm channel count).taken server).vserialInbox =
        server.vserialInbox := by
      rw [Exchange.taken, dif_pos h]
      rfl
    have hcount : count.toNat = 0 ↔ count = 0 := UInt8.toNat_inj (b := 0)
    have hiff := grown_drop_iff htaken
    rw [hcount] at hiff
    rw [Grown, hinbox]
    constructor
    · intro hgrown _
      exact hiff.mp fun c => (hgrown c).2
    · intro hnothing c
      exact ⟨List.prefix_rfl, hiff.mpr (hnothing h) c⟩
  · rw [Exchange.taken, dif_neg h]
    exact iff_of_true (fun _ => ⟨List.prefix_rfl, List.prefix_rfl⟩) fun hlt => absurd hlt h

theorem outbound_grown_iff (channel : UInt8) (server : Server D) :
    Grown server ((Exchange.outbound channel).taken server) ↔
      (Exchange.outbound channel).TakesNothing server := by
  by_cases h : channel.toNat < vserialChannels
  · have htaken : ((Exchange.outbound channel).taken server).vserialInbox =
        Function.update server.vserialInbox ⟨channel.toNat, h⟩ [] := by
      rw [Exchange.taken, dif_pos h]
      rfl
    have houtbox : ((Exchange.outbound channel).taken server).vserialOutbox =
        server.vserialOutbox := by
      rw [Exchange.taken, dif_pos h]
      rfl
    rw [Grown, houtbox]
    constructor
    · intro hgrown _
      have hc := (hgrown ⟨channel.toNat, h⟩).1
      rw [htaken, Function.update_self, List.prefix_nil] at hc
      exact hc
    · intro hnothing c
      refine ⟨?_, List.prefix_rfl⟩
      rw [htaken]
      by_cases hc : c = ⟨channel.toNat, h⟩
      · rw [hc, Function.update_self, hnothing h]
      · rw [Function.update_of_ne hc]
  · rw [Exchange.taken, dif_neg h]
    exact iff_of_true (fun _ => ⟨List.prefix_rfl, List.prefix_rfl⟩) fun hlt => absurd hlt h

theorem grown_iff (x : Exchange) (server : Server D) :
    Grown server (x.taken server) ↔ x.TakesNothing server := by
  cases x with
  | serread => exact serread_grown_iff server
  | serreadm channel count => exact serreadm_grown_iff channel count server
  | outbound channel => exact outbound_grown_iff channel server

/-- How an exchange goes when its write fails: the bytes have been taken, and
    then others have added to the queues. -/
theorem eval_broken (host : Host D F) (t : Tid) (err : IoError) (meanwhile : List Append)
    (x : Exchange) (s : State D F) :
    x.code.eval (answerBroken host t err meanwhile) (s.world ⟨x.input, []⟩) = none ∧
        x.TakesNothing s.server ∨
      ∃ (a : Flow Exit) (w w' : World D F Wire),
        x.code.eval (answerBroken host t err meanwhile) (s.world ⟨x.input, []⟩) = some (a, w') ∧
        w.server = x.taken s.server ∧ w'.server = (meanwhile.foldl World.append w).server := by
  cases x with
  | serread =>
    obtain ⟨a, w, heval, hw⟩ := eval_broken_serread host t err meanwhile s ⟨[], []⟩
    exact .inr ⟨a, w, _, heval, hw, rfl⟩
  | serreadm channel count =>
    obtain ⟨a, w, heval, hw⟩ := eval_broken_serreadm host t err meanwhile channel count s
    exact .inr ⟨a, w, _, heval, hw, rfl⟩
  | outbound channel =>
    rcases eval_broken_outbound host t err meanwhile channel s ⟨[], []⟩ with
      hwait | ⟨a, w, heval, hw⟩
    · exact .inl hwait
    · exact .inr ⟨a, w, _, heval, hw, rfl⟩

theorem takesNothing_of_keeps {host : Host D F} {t : Tid} {x : Exchange} {s : State D F}
    (h : Keeps host t x s) : x.TakesNothing s.server := by
  rcases eval_broken host t brokenPipe [] x s with ⟨-, hnothing⟩ | ⟨a, w, w', heval, hw, hw'⟩
  · exact hnothing
  · have hgrown := h brokenPipe [] a w' heval
    rw [show w'.server = x.taken s.server from hw'.trans hw] at hgrown
    exact (grown_iff x s.server).mp hgrown

theorem keeps_of_takesNothing {host : Host D F} {t : Tid} {x : Exchange} {s : State D F}
    (h : x.TakesNothing s.server) : Keeps host t x s := by
  intro err meanwhile a w' heval c
  rcases eval_broken host t err meanwhile x s with ⟨hwait, -⟩ | ⟨a', w, w'', heval', hw, hw'⟩
  · rw [hwait] at heval
    cases heval
  · rw [heval'] at heval
    cases heval
    have hgrown := (grown_iff x s.server).mpr h c
    have happends := appends_grow meanwhile w c
    rw [hw] at happends
    rw [hw']
    exact ⟨hgrown.1.trans happends.1, hgrown.2.trans happends.2⟩

/-- **A byte that is taken is lost with the write.** In every state of the
    queues, an exchange keeps all queued bytes when its write fails exactly if
    it has taken none. -/
theorem keeps_iff (host : Host D F) (t : Tid) (x : Exchange) (s : State D F) :
    Keeps host t x s ↔ x.TakesNothing s.server :=
  ⟨takesNothing_of_keeps, keeps_of_takesNothing⟩

/-- One byte for the guest, on channel 1. -/
def oneQueued : State Unit Unit where
  server := { Server.new Unit with vserialOutbox := fun c => if c = 1 then [0x41] else [] }
  notify := fun _ => .new
  sys    := ()

/-- SERREAD takes the byte, and the write fails. -/
theorem serread_discards : ¬ ∀ (host : Host Unit Unit) (t : Tid) (x : Exchange)
    (s : State Unit Unit), Keeps host t x s := by
  intro h
  have hnothing := takesNothing_of_keeps (h failingHost (.guest 0) .serread oneQueued)
  have hlowest : Lowest oneQueued.server.vserialOutbox 1 := by
    refine ⟨by decide, ?_⟩
    decide
  exact absurd (hnothing 1 hlowest) (by decide)

end DriveWire
