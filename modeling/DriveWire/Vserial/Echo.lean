import DriveWire.Vserial.Poll

/-! # The Echo Guest

    The synthetic guest of `echo-guest`: it greets the server with DWINIT,
    polls with SERREAD and SERREADM, and sends every byte that it receives
    back on the same channel with FASTWRITE.  With it a byte makes the whole
    round: a host queues it, the guest takes it, the server puts it into the
    inbox, a host drains it.

    The stages of the round are the outbox, the session and the wire to the
    guest, the wire back with the session again, and the inbox.  The invariant
    says what is on its way between the two queues. -/

namespace DriveWire

open Async Server

variable {D F N : Type}

namespace Echo

/-! ## Section 1: The guest -/

def opDwinit : UInt8 := 0x5A

def opSerread : UInt8 := 0x43

def opSerreadm : UInt8 := 0x63

/-- `OP_FASTWRITE_BASE` -/
def opFastwriteBase : UInt8 := 0x80

/-- The frame that `echo_back` sends. -/
def echoBack (channel : UInt8) (bytes : List UInt8) : List UInt8 :=
  bytes.flatMap fun b => [opFastwriteBase + channel, b]

/-- Where the program is: before its greeting, waiting for the answer to it,
    about to poll, waiting for the two reply bytes, or for those of a burst. -/
inductive Phase where
  | connected : Phase
  | greeting  : Phase
  | ready     : Phase
  | reply     : Phase
  | burst     : UInt8 → UInt8 → Phase

/-- The guest, with the bytes on the wire in both directions. -/
structure Guest where
  toServer   : List UInt8
  fromServer : List UInt8
  phase      : Phase

namespace Guest

def new : Guest := ⟨[], [], .connected⟩

/-- What the loop does with the reply to a SERREAD. -/
def handle (p : Guest) (code second : UInt8) (rest : List UInt8) : Guest :=
  match decodeSerread code second with
  | .byte channel byte => ⟨p.toServer ++ echoBack channel [byte], rest, .ready⟩
  | .burst channel count =>
    ⟨p.toServer ++ [opSerreadm, channel, count], rest, .burst channel count⟩
  | _ => ⟨p.toServer, rest, .ready⟩

/-- The next step of `main`, if it does not wait for the server. -/
def step (p : Guest) : Option Guest :=
  match p.phase with
  | .connected => some ⟨p.toServer ++ [opDwinit, 0x42], p.fromServer, .greeting⟩
  | .greeting =>
    match p.fromServer with
    | _srvCaps :: rest => some ⟨p.toServer, rest, .ready⟩
    | [] => none
  | .ready => some ⟨p.toServer ++ [opSerread], p.fromServer, .reply⟩
  | .reply =>
    match p.fromServer with
    | code :: second :: rest => some (p.handle code second rest)
    | _ => none
  | .burst channel count =>
    if count.toNat ≤ p.fromServer.length then
      some ⟨p.toServer ++ echoBack channel (p.fromServer.take count.toNat),
        p.fromServer.drop count.toNat, .ready⟩
    else none

/-- The connection, from the server's side. -/
def answer : (i : Io) → Guest → Poll i.Res × Guest
  | .readExact n, p =>
    if h : n ≤ p.toServer.length then
      (.ready (.ok (takeVector n p.toServer h)), { p with toServer := p.toServer.drop n })
    else (.pending, p)
  | .writeAll bs, p => (.ready (.ok ()), { p with fromServer := p.fromServer ++ bs })
  | .read _, p => (.pending, p)
  | .nextLine, p => (.pending, p)
  | .nextCall, p => (.pending, p)

end Guest

/-- The one guest session is number `g`, and its peer is the echo guest; the
    network may delay any of its reads and writes.  All other peers are as in
    `rest`. -/
def withEcho (rest : Env D F N) (g : Nat) : Env D F (Guest × N) where
  net := fun t i n r n' =>
    (t = .guest g ∧ ((r = .pending ∧ n' = n) ∨
      (r = (n.1.answer i).1 ∧ n' = ((n.1.answer i).2, n.2)))) ∨
      (t ≠ .guest g ∧ n'.1 = n.1 ∧ rest.net t i n.2 r n'.2)
  sys := rest.sys
  connect := fun t n => t = .guest g ∨ ((∀ k, t ≠ .guest k) ∧ rest.connect t n.2)
  netStep := fun n n' =>
    (n.1.step = some n'.1 ∧ n'.2 = n.2) ∨ (n'.1 = n.1 ∧ rest.netStep n.2 n'.2)

/-! ## Section 2: The session of the guest -/

/-- How far the session is with a command of the guest. -/
inductive Turn where
  | off      : Turn
  | opcode   : Turn
  | dwinit   : Turn
  | caps     : Turn
  | serread  : Turn
  | reply    : Scan → Turn
  | serreadm : Turn
  | pop      : UInt8 → UInt8 → Turn
  | data     : List UInt8 → Turn
  | fast     : UInt8 → Turn
  | push     : UInt8 → UInt8 → Turn
  | other    : Turn

/-- Effects that take nothing out of the outbox and put nothing into the
    inbox. -/
def Bystander : Eff D → Prop
  | .op .outboxScan | .op (.outboxPop _ _) => False
  | .op (.inboxPushBack _ _) | .op (.inboxExtend _ _) => False
  | _ => True

/-- The opcodes that the guest sends. -/
inductive Spoken : UInt8 → Prop where
  | dwinit   : Spoken opDwinit
  | serread  : Spoken opSerread
  | serreadm : Spoken opSerreadm
  | fast     : ∀ c : Channel, Spoken (opFastwriteBase + idOf c)

def Turn.Allows : Turn → Eff D → Prop
  | .opcode, .io (.readExact n) => n = 1
  | .opcode, .unlock _ => True
  | .opcode, .notifyOne _ => True
  | .dwinit, .io (.readExact n) => n = 1
  | .caps, .io (.writeAll bs) => bs = [dwinitResponse]
  | .serread, .lock _ _ => True
  | .serread, .op .outboxScan => True
  | .reply found, .io (.writeAll bs) => bs = serreadReply found
  | .serreadm, .io (.readExact n) => n = 2
  | .pop _ _, .lock _ _ => True
  | .pop channel count, .op (.outboxPop c n) => c.val = channel.toNat ∧ n = count.toNat
  | .data _, .unlock _ => True
  | .data bytes, .io (.writeAll bs) => bs = bytes
  | .fast _, .io (.readExact n) => n = 1
  | .push _ _, .lock _ _ => True
  | .push channel byte, .op (.inboxPushBack c b) => c.val = channel.toNat ∧ b = byte
  | .other, e => Bystander e
  | _, _ => False

/-- The guest sends its own commands only, and its connection stays. -/
def Turn.Admits : Turn → (e : Eff D) → e.Res → Prop
  | .opcode, .io (.readExact _), r => ∃ v b, r = .ok v ∧ v.toList = [b] ∧ Spoken b
  | .dwinit, .io (.readExact _), r => ∃ v, r = .ok v
  | .caps, .io (.writeAll _), r => r = .ok ()
  | .serreadm, .io (.readExact _), r =>
    ∃ v, r = .ok v ∧ (v.toList.getD 0 0).toNat < vserialChannels
  | .reply _, .io (.writeAll _), r => r = .ok ()
  | .data _, .io (.writeAll _), r => r = .ok ()
  | .fast _, .io (.readExact _), r => ∃ v, r = .ok v
  | _, _, _ => True

/-- The command that an opcode of the guest begins. -/
def Turn.after (b : UInt8) : Turn :=
  if b = opDwinit then .dwinit
  else if b = opSerread then .serread
  else if b = opSerreadm then .serreadm
  else .fast (b - opFastwriteBase)

def Turn.next : Turn → (e : Eff D) → e.Res → Turn
  | .opcode, .io (.readExact _), .ok v => Turn.after (v.toList.getD 0 0)
  | .dwinit, .io (.readExact _), _ => .caps
  | .caps, .io (.writeAll _), _ => .opcode
  | .serread, .op .outboxScan, found => .reply found
  | .reply _, .io (.writeAll _), _ => .opcode
  | .serreadm, .io (.readExact _), .ok v => .pop (v.toList.getD 0 0) (v.toList.getD 1 0)
  | .pop _ _, .op (.outboxPop _ _), popped => .data (popped.toList.map (·.getD 0))
  | .data _, .io (.writeAll _), _ => .opcode
  | .fast channel, .io (.readExact _), .ok v => .push channel (v.toList.getD 0 0)
  | .push _ _, .op (.inboxPushBack _ _), _ => .opcode
  | s, _, _ => s

def echoing : Protocol (Eff D) Eff.Res Turn where
  allows := Turn.Allows
  admits := Turn.Admits
  next   := Turn.next

/-- Where a task starts an iteration of its loop. -/
def Turn.enter : Tid → Turn
  | .guest _ => .opcode
  | _ => .other

/-- The session of the guest never ends. -/
def Turn.Leaves : Tid → Flow Exit → Turn → Prop
  | .guest _, .again, s => s = .opcode
  | .guest _, .done _, _ => False
  | _, _, s => s = .other

theorem other_next (e : Eff D) (r : e.Res) : Turn.next .other e r = .other := by
  unfold Turn.next
  split <;> simp_all

theorem after_fast (c : Channel) : Turn.after (opFastwriteBase + idOf c) = .fast (idOf c) := by
  have hall : ∀ c : Channel, opFastwriteBase + idOf c ≠ opDwinit ∧
      opFastwriteBase + idOf c ≠ opSerread ∧ opFastwriteBase + idOf c ≠ opSerreadm ∧
      opFastwriteBase + idOf c - opFastwriteBase = idOf c := by decide
  obtain ⟨hdwinit, hserread, hserreadm, hchannel⟩ := hall c
  rw [Turn.after, if_neg hdwinit, if_neg hserread, if_neg hserreadm, hchannel]

/-- The server decodes a FASTWRITE for the channel that the guest means. -/
theorem fromByte_fast (c : Channel) :
    Decoded.fromByte (opFastwriteBase + idOf c) = .fastWrite (idOf c) := by
  have hall : ∀ c : Channel,
      Decoded.fromByte (opFastwriteBase + idOf c) = .fastWrite (idOf c) := by decide
  exact hall c

theorem opcode_next {n : Nat} {v : Vector UInt8 n} {b : UInt8} (hv : v.toList = [b]) :
    Turn.next (D := D) .opcode (.io (.readExact n)) (.ok v) = Turn.after b := by
  show Turn.after (v.toList.getD 0 0) = Turn.after b
  rw [hv]
  rfl

theorem dwinit_echoing :
    ((handleDwinit (D := D)).run >>= fun r => Prog.ret (flowOf r)).Obeys echoing .dwinit
      fun a s => a = .again ∧ s = .opcode := by
  rw [handleDwinit, run_readExact_bind]
  refine ⟨rfl, fun r hr => ?_⟩
  obtain ⟨v, rfl⟩ := hr
  refine ⟨rfl, fun r hr => ?_⟩
  cases hr
  exact ⟨rfl, rfl⟩

theorem serread_echoing :
    ((handleSerread (D := D)).run >>= fun r => Prog.ret (flowOf r)).Obeys echoing .serread
      fun a s => a = .again ∧ s = .opcode := by
  rw [handleSerread_eq]
  refine ⟨trivial, fun _ _ => ⟨trivial, fun found _ => ⟨rfl, fun r hr => ?_⟩⟩⟩
  refine ⟨trivial, fun _ _ => ?_⟩
  cases hr
  exact ⟨rfl, rfl⟩

theorem serreadm_echoing :
    ((handleSerreadm (D := D)).run >>= fun r => Prog.ret (flowOf r)).Obeys echoing .serreadm
      fun a s => a = .again ∧ s = .opcode := by
  rw [handleSerreadm, run_readExact_bind]
  refine ⟨rfl, fun r hr => ?_⟩
  obtain ⟨p, rfl, hp⟩ := hr
  have hdata : p.toList = [byte0 p, byte1 p] := toList_two p
  have hturn : (echoing (D := D)).next .serreadm (.io (.readExact 2)) (.ok p) =
      .pop (byte0 p) (byte1 p) := by
    show Turn.pop (p.toList.getD 0 0) (p.toList.getD 1 0) = _
    rw [hdata]
    rfl
  have hlt : (byte0 p).toNat < vserialChannels := by
    rwa [hdata] at hp
  rw [hturn]
  dsimp only
  rw [run_call_bind, popPadded, dif_pos hlt]
  refine ⟨trivial, fun _ _ => ⟨⟨rfl, rfl⟩, fun popped _ => ⟨trivial, fun _ _ => ?_⟩⟩⟩
  refine ⟨rfl, fun r hr => ?_⟩
  cases hr
  exact ⟨rfl, rfl⟩

theorem fastwrite_echoing (c : Channel) :
    ((handleFastwrite (D := D) (idOf c)).run >>= fun r => Prog.ret (flowOf r)).Obeys echoing
      (.fast (idOf c)) fun a s => a = .again ∧ s = .opcode := by
  rw [handleFastwrite, run_readExact_bind]
  refine ⟨rfl, fun r hr => ?_⟩
  obtain ⟨v, rfl⟩ := hr
  have hv : v.toList = [byte0 v] := toList_one v
  have hturn : (echoing (D := D)).next (.fast (idOf c)) (.io (.readExact 1)) (.ok v) =
      .push (idOf c) (byte0 v) := by
    show Turn.push (idOf c) (v.toList.getD 0 0) = _
    rw [hv]
    rfl
  have hlt : (idOf c).toNat < vserialChannels := by
    rw [idOf_toNat]
    exact c.isLt
  rw [hturn]
  dsimp only
  rw [run_call, pushVserial, dif_pos hlt]
  refine ⟨trivial, fun _ _ => ⟨⟨rfl, rfl⟩, fun _ _ => ⟨trivial, fun _ _ => ?_⟩⟩⟩
  exact ⟨trivial, fun _ _ => ⟨rfl, rfl⟩⟩

theorem guest_echoing (n : Nat) :
    (guestOnce (D := D)).Obeys echoing .opcode (Turn.Leaves (.guest n)) := by
  have hleaves : ∀ (a : Flow Exit) (s : Turn), a = .again ∧ s = .opcode →
      Turn.Leaves (.guest n) a s := by
    rintro a s ⟨rfl, rfl⟩
    rfl
  rw [guestOnce, runOnce_eq]
  refine ⟨rfl, fun r hr => ?_⟩
  obtain ⟨v, b, rfl, hv, hb⟩ := hr
  have hnext : (echoing (D := D)).next .opcode (.io (.readExact 1)) (.ok v) = Turn.after b :=
    opcode_next (D := D) hv
  rw [hnext]
  dsimp only
  rw [byte0_eq hv]
  cases hb with
  | dwinit => exact dwinit_echoing.mono hleaves
  | serread => exact serread_echoing.mono hleaves
  | serreadm => exact serreadm_echoing.mono hleaves
  | fast c =>
    rw [after_fast, fromByte_fast]
    exact (fastwrite_echoing c).mono hleaves

theorem other_echoing {t : Tid} {c : Code D (Flow Exit)} (h : c.Only Bystander)
    (ht : ∀ n, t ≠ .guest n) : c.Obeys echoing .other (Turn.Leaves t) := by
  have hother : c.Obeys echoing .other (fun _ s => s = .other) :=
    h.obeys fun e he => ⟨he, fun r _ => other_next e r⟩
  refine hother.mono fun a s hs => ?_
  cases t with
  | guest n => exact absurd rfl (ht n)
  | _ => exact hs

theorem bystander_of_host {e : Eff D} (h : HostEff e) : Bystander e := by
  cases e with
  | op o => cases o <;> trivial
  | _ => trivial

theorem bystander_of_outbound {channel : UInt8} {e : Eff D} (h : OutboundEff channel e) :
    Bystander e := by
  cases e with
  | notified c => trivial
  | _ => exact bystander_of_host (TapEff.hostEff h)

theorem attachSession_bystander (n : Nat) : (attachSession n : Code D _).Only Bystander := by
  refine ⟨trivial, fun r _ => ?_⟩
  cases r with
  | error e => trivial
  | ok v => exact ⟨trivial, fun _ _ => ⟨trivial, fun _ _ => ⟨trivial, fun _ _ => trivial⟩⟩⟩

theorem body_echoing [VDisk D] [UnicodeTables] (t : Tid) :
    (body t : Code D _).Obeys echoing (Turn.enter t) (Turn.Leaves t) := by
  cases t with
  | guest n => exact guest_echoing n
  | attach n => exact other_echoing (attachSession_bystander n) fun _ h => by cases h
  | attachIn n channel =>
    exact other_echoing ((inboundOnce_host channel).mono fun _ => bystander_of_host)
      fun _ h => by cases h
  | attachOut n channel =>
    exact other_echoing ((outboundOnce_only channel).mono fun _ => bystander_of_outbound)
      fun _ h => by cases h
  | control n =>
    exact other_echoing (controlOnce_host.mono fun _ => bystander_of_host) fun _ h => by cases h
  | api n =>
    exact other_echoing (apiCall_host.mono fun _ => bystander_of_host) fun _ h => by cases h

/-! ## Section 3: Bytes on their way -/

/-- Bytes of channel `c` that are neither in its outbox nor in its inbox. -/
def inFlight (c : Channel) (bs : List UInt8) : Channel → List UInt8 :=
  fun c' => if c' = c then bs else []

theorem inFlight_nil (c : Channel) : inFlight c [] = fun _ => [] := by
  funext c'
  simp [inFlight]

/-- The byte that a scan has taken. -/
def ofScan : Scan → Channel → List UInt8
  | .byte c b => inFlight c [b]
  | _ => fun _ => []

/-- The way back: what is left of the echoed frames on the wire, and the bytes
    of them that are not in the inbox yet. -/
inductive Back (c : Channel) : Turn → List UInt8 → List UInt8 → Prop where
  | opcode : ∀ bs, Back c .opcode (echoBack (idOf c) bs) bs
  | fast   : ∀ b bs, Back c (.fast (idOf c)) (b :: echoBack (idOf c) bs) (b :: bs)
  | push   : ∀ b bs, Back c (.push (idOf c) b) (echoBack (idOf c) bs) (b :: bs)

/-- How the guest, its session and the outbox fit together, with the bytes
    that are on their way. -/
inductive Agree (out : Channel → List UInt8) :
    Turn → Guest → (Channel → List UInt8) → Prop where
  | connected : Agree out .opcode ⟨[], [], .connected⟩ fun _ => []
  | greeting : Agree out .opcode ⟨[opDwinit, 0x42], [], .greeting⟩ fun _ => []
  | driver : Agree out .dwinit ⟨[0x42], [], .greeting⟩ fun _ => []
  | caps : Agree out .caps ⟨[], [], .greeting⟩ fun _ => []
  | welcomed : Agree out .opcode ⟨[], [dwinitResponse], .greeting⟩ fun _ => []
  | ready : ∀ c turn wire bs, Back c turn wire bs →
      Agree out turn ⟨wire, [], .ready⟩ (inFlight c bs)
  | asked : ∀ c turn wire bs, Back c turn wire bs →
      Agree out turn ⟨wire ++ [opSerread], [], .reply⟩ (inFlight c bs)
  | serread : Agree out .serread ⟨[], [], .reply⟩ fun _ => []
  | scanned : ∀ found, Promise out found →
      Agree out (.reply found) ⟨[], [], .reply⟩ (ofScan found)
  | replied : ∀ found, Promise out found →
      Agree out .opcode ⟨[], serreadReply found, .reply⟩ (ofScan found)
  | requested : ∀ c n, Promise out (.burst c n) →
      Agree out .opcode ⟨[opSerreadm, idOf c, n], [], .burst (idOf c) n⟩ fun _ => []
  | header : ∀ c n, Promise out (.burst c n) →
      Agree out .serreadm ⟨[idOf c, n], [], .burst (idOf c) n⟩ fun _ => []
  | pop : ∀ c n, Promise out (.burst c n) →
      Agree out (.pop (idOf c) n) ⟨[], [], .burst (idOf c) n⟩ fun _ => []
  | data : ∀ c n bytes, bytes.length = n.toNat → 3 ≤ n.toNat →
      Agree out (.data bytes) ⟨[], [], .burst (idOf c) n⟩ (inFlight c bytes)
  | sent : ∀ c n bytes, bytes.length = n.toNat → 3 ≤ n.toNat →
      Agree out .opcode ⟨[], bytes, .burst (idOf c) n⟩ (inFlight c bytes)

/-- Hosts that queue more bytes do not disturb this. -/
theorem Agree.mono {out out' : Channel → List UInt8} {turn : Turn} {p : Guest}
    {fl : Channel → List UInt8} (h : Agree out turn p fl)
    (hlen : ∀ c, (out c).length ≤ (out' c).length) : Agree out' turn p fl := by
  cases h with
  | connected => exact .connected
  | greeting => exact .greeting
  | driver => exact .driver
  | caps => exact .caps
  | welcomed => exact .welcomed
  | ready c turn wire bs h => exact .ready _ _ _ _ h
  | asked c turn wire bs h => exact .asked _ _ _ _ h
  | serread => exact .serread
  | scanned found h => exact .scanned _ (h.mono hlen)
  | replied found h => exact .replied _ (h.mono hlen)
  | requested c n h => exact .requested _ _ (h.mono hlen)
  | header c n h => exact .header _ _ (h.mono hlen)
  | pop c n h => exact .pop _ _ (h.mono hlen)
  | data c n bytes h h' => exact .data _ _ _ h h'
  | sent c n bytes h h' => exact .sent _ _ _ h h'

/-- Between two polls nothing has to be on its way. -/
theorem agree_ready (out : Channel → List UInt8) :
    Agree out .opcode ⟨[], [], .ready⟩ fun _ => [] := by
  rw [← inFlight_nil 0]
  exact .ready 0 _ _ [] (.opcode [])

/-! ## Section 4: A step of the guest -/

/-- The guest waits for the bytes that it has asked for. -/
theorem step_waits {n : UInt8} (h : 3 ≤ n.toNat) (toServer : List UInt8) (c : UInt8) :
    Guest.step ⟨toServer, [], .burst c n⟩ = none := by
  refine if_neg ?_
  rw [List.length_nil]
  omega

/-- The guest sends back the bytes that it has asked for. -/
theorem step_echoes {n : UInt8} {bytes : List UInt8} (h : bytes.length = n.toNat) (c : UInt8) :
    Guest.step ⟨[], bytes, .burst c n⟩ = some ⟨echoBack c bytes, [], .ready⟩ := by
  have hready : Guest.step ⟨[], bytes, .burst c n⟩ =
      some ⟨[] ++ echoBack c (bytes.take n.toNat), bytes.drop n.toNat, .ready⟩ :=
    if_pos h.ge
  rw [hready, ← h, List.drop_length, List.take_length, List.nil_append]

theorem step_reply (found : Scan) :
    Guest.step ⟨[], serreadReply found, .reply⟩ =
      some (Guest.handle ⟨[], serreadReply found, .reply⟩ (replyCode found)
        (replySecond found) []) := by
  cases found <;> rfl

/-- What the guest does with a reply: the byte of a byte reply goes back. -/
theorem handle_agree {out : Channel → List UInt8} {found : Scan} (h : Promise out found) :
    Agree out .opcode (Guest.handle ⟨[], serreadReply found, .reply⟩ (replyCode found)
      (replySecond found) []) (ofScan found) := by
  cases found with
  | empty => exact agree_ready out
  | byte c b =>
    rw [Guest.handle, replySecond, decode_byte h b]
    exact .ready c _ _ [b] (.opcode [b])
  | burst c n =>
    rw [Guest.handle, replySecond, decode_burst h.1 n]
    exact .requested c n h

/-- **A step of the guest** loses no byte. -/
theorem guest_moves {out : Channel → List UInt8} {turn : Turn} {p p' : Guest}
    {fl : Channel → List UInt8} (h : Agree out turn p fl) (hstep : p.step = some p') :
    Agree out turn p' fl := by
  cases h with
  | connected =>
    cases hstep
    exact .greeting
  | greeting => cases hstep
  | driver => cases hstep
  | caps => cases hstep
  | welcomed =>
    cases hstep
    exact agree_ready out
  | ready c turn wire bs hback =>
    cases hstep
    exact .asked _ _ _ _ hback
  | asked => cases hstep
  | serread => cases hstep
  | scanned => cases hstep
  -- the reply to SERREAD says which frame comes next: an echo, or a SERREADM
  | replied found hpromise =>
    rw [step_reply] at hstep
    cases hstep
    exact handle_agree hpromise
  | requested c n hpromise =>
    rw [step_waits hpromise.2.1] at hstep
    cases hstep
  | header c n hpromise =>
    rw [step_waits hpromise.2.1] at hstep
    cases hstep
  | pop c n hpromise =>
    rw [step_waits hpromise.2.1] at hstep
    cases hstep
  | data c n bytes hlen hthree =>
    rw [step_waits hthree] at hstep
    cases hstep
  | sent c n bytes hlen hthree =>
    rw [step_echoes hlen] at hstep
    cases hstep
    exact .ready c _ _ bytes (.opcode bytes)

/-! ## Section 5: A step of the session -/

/-- What an effect puts into the inbox of channel `c`. -/
def pushed (c : Channel) : Eff D → List UInt8
  | .op o => inboxIn c o
  | _ => []

/-- What a step does to the bytes between the outbox and the inbox: nothing is
    lost, doubled or reordered. -/
structure Moves (e : Eff D) (out out' : Channel → List UInt8)
    (fl fl' : Channel → List UInt8) : Prop where
  stream : ∀ c, pushed c e ++ fl' c ++ out' c = fl c ++ out c
  shrink : ∀ c, out c = [] → out' c = []

/-- An effect that touches no queue. -/
theorem Moves.still {e : Eff D} (he : ∀ c, pushed c e = []) (out fl : Channel → List UInt8) :
    Moves e out out fl fl :=
  ⟨fun c => by rw [he, List.nil_append], fun _ h => h⟩

theorem answer_one {p : Guest} {b : UInt8} {rest : List UInt8} (hp : p.toServer = b :: rest) :
    ∃ v : Vector UInt8 1, v.toList = [b] ∧
      p.answer (.readExact 1) = (.ready (.ok v), { p with toServer := rest }) := by
  obtain ⟨toServer, fromServer, phase⟩ := p
  subst hp
  have hone : 1 ≤ (b :: rest).length := by simp
  refine ⟨takeVector 1 (b :: rest) hone, ?_, ?_⟩
  · rw [takeVector_toList]
    rfl
  · rw [Guest.answer, dif_pos hone]
    rfl

theorem answer_none {p : Guest} {n : Nat} (hn : 0 < n) (hp : p.toServer = []) :
    p.answer (.readExact n) = (.pending, p) := by
  refine dif_neg ?_
  rw [hp, List.length_nil]
  omega

section session

variable {out : Channel → List UInt8} {p p' : Guest} {fl : Channel → List UInt8}

/-- The first byte on the wire, when there is one. -/
theorem read_one {b : UInt8} {rest : List UInt8} (hp : p.toServer = b :: rest)
    {r : Except IoError (Vector UInt8 1)} (hans : p.answer (.readExact 1) = (.ready r, p')) :
    ∃ v, r = .ok v ∧ v.toList = [b] ∧ p' = { p with toServer := rest } := by
  obtain ⟨v, hv, hone⟩ := answer_one hp
  rw [hone] at hans
  cases hans
  exact ⟨v, rfl, hv, rfl⟩

theorem read_nothing {n : Nat} (hn : 0 < n) (hp : p.toServer = []) {r : (Io.readExact n).Res} :
    p.answer (.readExact n) ≠ (.ready r, p') := by
  intro hans
  rw [answer_none hn hp] at hans
  cases hans

/-- The opcode that the session reads is one that the guest sends. -/
theorem opcode_answers (h : Agree out .opcode p fl) {r : Except IoError (Vector UInt8 1)}
    (hans : p.answer (.readExact 1) = (.ready r, p')) :
    Turn.Admits (D := D) .opcode (.io (.readExact 1)) r ∧
      Agree out (Turn.next (D := D) .opcode (.io (.readExact 1)) r) p' fl := by
  -- the opcode `b` is next on the wire
  have hread : ∀ b rest, p.toServer = b :: rest → Spoken b →
      Agree out (Turn.after b) { p with toServer := rest } fl →
      Turn.Admits (D := D) .opcode (.io (.readExact 1)) r ∧
        Agree out (Turn.next (D := D) .opcode (.io (.readExact 1)) r) p' fl := by
    intro b rest hp hb hagree
    obtain ⟨v, rfl, hv, rfl⟩ := read_one hp hans
    refine ⟨⟨v, b, rfl, hv, hb⟩, ?_⟩
    rw [opcode_next hv]
    exact hagree
  cases h with
  | connected => exact absurd hans (read_nothing one_pos rfl)
  | greeting => exact hread _ _ rfl .dwinit .driver
  | welcomed => exact absurd hans (read_nothing one_pos rfl)
  | ready c turn wire bs hback =>
    cases hback with
    | opcode =>
      cases bs with
      | nil => exact absurd hans (read_nothing one_pos rfl)
      | cons b bs =>
        refine hread (opFastwriteBase + idOf c) (b :: echoBack (idOf c) bs) rfl (.fast c) ?_
        rw [after_fast]
        exact .ready c _ _ _ (.fast b bs)
  | asked c turn wire bs hback =>
    cases hback with
    | opcode =>
      cases bs with
      | nil =>
        refine hread opSerread [] rfl .serread ?_
        rw [inFlight_nil]
        exact .serread
      | cons b bs =>
        refine hread (opFastwriteBase + idOf c) (b :: echoBack (idOf c) bs ++ [opSerread]) rfl
          (.fast c) ?_
        rw [after_fast]
        exact .asked c _ _ _ (.fast b bs)
  | replied => exact absurd hans (read_nothing one_pos rfl)
  | requested c n hpromise => exact hread _ _ rfl .serreadm (.header c n hpromise)
  | sent => exact absurd hans (read_nothing one_pos rfl)

/-- The driver byte of the greeting. -/
theorem driver_answers (h : Agree out .dwinit p fl) {r : Except IoError (Vector UInt8 1)}
    (hans : p.answer (.readExact 1) = (.ready r, p')) :
    (∃ v, r = .ok v) ∧ Agree out .caps p' fl := by
  cases h with
  | driver =>
    obtain ⟨v, rfl, -, rfl⟩ := read_one rfl hans
    exact ⟨⟨v, rfl⟩, .caps⟩
  | ready c _ wire bs hback => cases hback
  | asked c _ wire bs hback => cases hback

/-- The data byte of a FASTWRITE. -/
theorem fast_answers {channel : UInt8} (h : Agree out (.fast channel) p fl)
    {r : Except IoError (Vector UInt8 1)}
    (hans : p.answer (.readExact 1) = (.ready r, p')) :
    (∃ v, r = .ok v) ∧
      Agree out (Turn.next (D := D) (.fast channel) (.io (.readExact 1)) r) p' fl := by
  have hnext : ∀ (v : Vector UInt8 1) (b : UInt8), v.toList = [b] →
      Turn.next (D := D) (.fast channel) (.io (.readExact 1)) (.ok v) = .push channel b := by
    intro v b hv
    show Turn.push channel (v.toList.getD 0 0) = _
    rw [hv]
    rfl
  cases h with
  | ready c _ wire bs hback =>
    cases hback with
    | fast b bs =>
      obtain ⟨v, rfl, hv, rfl⟩ := read_one rfl hans
      rw [hnext v b hv]
      exact ⟨⟨v, rfl⟩, .ready c _ _ _ (.push b bs)⟩
  | asked c _ wire bs hback =>
    cases hback with
    | fast b bs =>
      obtain ⟨v, rfl, hv, rfl⟩ := read_one rfl hans
      rw [hnext v b hv]
      exact ⟨⟨v, rfl⟩, .asked c _ _ _ (.push b bs)⟩

/-- The channel and the count of a SERREADM. -/
theorem header_answers (h : Agree out .serreadm p fl) {r : Except IoError (Vector UInt8 2)}
    (hans : p.answer (.readExact 2) = (.ready r, p')) :
    Turn.Admits (D := D) .serreadm (.io (.readExact 2)) r ∧
      Agree out (Turn.next (D := D) .serreadm (.io (.readExact 2)) r) p' fl := by
  cases h with
  | ready c _ wire bs hback => cases hback
  | asked c _ wire bs hback => cases hback
  | header c n hpromise =>
    rw [Guest.answer, dif_pos (by simp)] at hans
    cases hans
    refine ⟨⟨_, rfl, ?_⟩, .pop _ _ hpromise⟩
    show (idOf c).toNat < vserialChannels
    rw [idOf_toNat]
    exact c.isLt

theorem caps_answers (h : Agree out .caps p fl) :
    Agree out .opcode { p with fromServer := p.fromServer ++ [dwinitResponse] } fl := by
  cases h with
  | caps => exact .welcomed
  | ready c _ wire bs hback => cases hback
  | asked c _ wire bs hback => cases hback

theorem reply_answers {found : Scan} (h : Agree out (.reply found) p fl) :
    Agree out .opcode { p with fromServer := p.fromServer ++ serreadReply found } fl := by
  cases h with
  | ready c _ wire bs hback => cases hback
  | asked c _ wire bs hback => cases hback
  | scanned _ hpromise => exact .replied _ hpromise

theorem data_answers {bytes : List UInt8} (h : Agree out (.data bytes) p fl) :
    Agree out .opcode { p with fromServer := p.fromServer ++ bytes } fl := by
  cases h with
  | ready c _ wire bs hback => cases hback
  | asked c _ wire bs hback => cases hback
  | data c n _ hlen hthree => exact .sent c n bytes hlen hthree

end session

theorem ofScan_eq (found : Scan) (c : Channel) : ofScan found c = found.taken c := by
  cases found with
  | byte c' b => simp [ofScan, inFlight, Scan.taken, eq_comm]
  | _ => rfl

/-- SERREAD takes at most one byte out of the outbox. -/
theorem scan_agree {out : Channel → List UInt8} {p : Guest} {fl : Channel → List UInt8}
    (h : Agree out .serread p fl) (hlast : out lastChannel = []) :
    ∃ fl', Agree (scanOutbox (List.finRange vserialChannels) out).2
        (.reply (scanOutbox (List.finRange vserialChannels) out).1) p fl' ∧
      Moves (D := D) (.op .outboxScan) out (scanOutbox (List.finRange vserialChannels) out).2
        fl fl' := by
  cases h with
  | ready c _ wire bs hback => cases hback
  | asked c _ wire bs hback => cases hback
  | serread =>
    obtain ⟨hpromise, hmoves⟩ := scan_moves hlast (fun _ => []) [] rfl
    refine ⟨_, .scanned _ hpromise, fun c => ?_, hmoves.shrink⟩
    rw [ofScan_eq]
    exact hmoves.stream c

/-- SERREADM takes the bytes that were promised. -/
theorem pop_agree {out : Channel → List UInt8} {p : Guest} {fl : Channel → List UInt8}
    {channel count : UInt8} {c : Channel} (hc : c.val = channel.toNat)
    (h : Agree out (.pop channel count) p fl) :
    ∃ fl', Agree (Function.update out c (popFronts count.toNat (out c)).2)
        (.data ((popFronts count.toNat (out c)).1.toList.map (·.getD 0))) p fl' ∧
      Moves (D := D) (.op (.outboxPop c count.toNat)) out
        (Function.update out c (popFronts count.toNat (out c)).2) fl fl' := by
  cases h with
  | ready c' _ wire bs hback => cases hback
  | asked c' _ wire bs hback => cases hback
  | pop c' n hpromise =>
    have hcc : c = c' := Fin.ext (hc.trans (idOf_toNat c'))
    subst hcc
    obtain ⟨hbytes, -, hmoves⟩ := pop_moves hpromise (fun _ => []) []
    rw [← popFronts_snd] at hmoves
    have hlen : ((out c).take count.toNat).length = count.toNat := by
      rw [List.length_take]
      exact min_eq_left hpromise.2.2
    refine ⟨inFlight c ((out c).take count.toNat), ?_, fun c' => ?_, hmoves.shrink⟩
    · rw [hbytes]
      exact .data c count _ hlen hpromise.2.1
    · exact hmoves.stream c'

/-- FASTWRITE puts the next byte into the inbox. -/
theorem push_agree {out : Channel → List UInt8} {p : Guest} {fl : Channel → List UInt8}
    {channel b : UInt8} {c : Channel} (hc : c.val = channel.toNat)
    (h : Agree out (.push channel b) p fl) :
    ∃ fl', Agree out .opcode p fl' ∧ Moves (D := D) (.op (.inboxPushBack c b)) out out fl fl' := by
  have hmoves : ∀ c' bs, c.val = (idOf c').toNat →
      Moves (D := D) (.op (.inboxPushBack c b)) out out (inFlight c' (b :: bs))
        (inFlight c' bs) := by
    intro c' bs hc'
    have hcc : c = c' := Fin.ext (hc'.trans (idOf_toNat c'))
    subst hcc
    refine ⟨fun k => ?_, fun _ h => h⟩
    show (if c = k then [b] else []) ++ (if k = c then bs else []) ++ out k =
      (if k = c then b :: bs else []) ++ out k
    by_cases hk : k = c
    · rw [if_pos hk, if_pos hk.symm, if_pos hk]
      rfl
    · rw [if_neg hk, if_neg (Ne.symm hk), if_neg hk]
      rfl
  cases h with
  | ready c' _ wire bs hback =>
    cases hback with
    | push b bs => exact ⟨_, .ready c' _ _ _ (.opcode bs), hmoves c' bs hc⟩
  | asked c' _ wire bs hback =>
    cases hback with
    | push b bs => exact ⟨_, .asked c' _ _ _ (.opcode bs), hmoves c' bs hc⟩

/-- A transport effect of the session is answered by the guest. -/
theorem guest_answers {rest : Env D F N} {g : Nat} {i : Io} {r : i.Res}
    {w w' : World D F (Guest × N)}
    (h : poll (withEcho rest g) (.guest g) (.io i) w (.ready r) w') :
    w.net.1.answer i = (.ready r, w'.net.1) ∧ w'.server = w.server := by
  obtain ⟨n, hnet, rfl⟩ := h
  rcases hnet with ⟨-, ⟨hr, -⟩ | ⟨hr, hn⟩⟩ | ⟨hne, -⟩
  · cases hr
  · refine ⟨?_, rfl⟩
    show w.net.1.answer i = (.ready r, n.1)
    rw [hr, hn]
  · exact absurd rfl hne

theorem write_answers {bs : List UInt8} {r : Except IoError Unit} {p p' : Guest}
    (h : p.answer (.writeAll bs) = (.ready r, p')) :
    r = .ok () ∧ p' = { p with fromServer := p.fromServer ++ bs } := by
  cases h
  exact ⟨rfl, rfl⟩

/-- **A step of the session** moves bytes along, and loses none. -/
theorem session_moves {rest : Env D F N} {g : Nat} {e : Eff D} {r : e.Res}
    {w w' : World D F (Guest × N)} {turn : Turn} {fl : Channel → List UInt8}
    (h : Agree w.server.vserialOutbox turn w.net.1 fl)
    (hlast : w.server.vserialOutbox lastChannel = []) (hallow : turn.Allows e)
    (hturn : turn ≠ .other) (hpoll : poll (withEcho rest g) (.guest g) e w (.ready r) w') :
    turn.Admits e r ∧ ∃ fl', Agree w'.server.vserialOutbox (turn.next e r) w'.net.1 fl' ∧
      Moves e w.server.vserialOutbox w'.server.vserialOutbox fl fl' := by
  -- by what the session is about to do; the effect that it has come to is one of a few,
  -- and the guest answers where it is the peer
  cases turn with
  | off => cases e <;> cases hallow
  | other => exact absurd rfl hturn
  | opcode =>
    cases e with
    | io i =>
      cases i with
      | readExact n =>
        cases (hallow : n = 1)
        obtain ⟨hans, hserver⟩ := guest_answers hpoll
        obtain ⟨hadm, hagree⟩ := opcode_answers h hans
        rw [hserver]
        exact ⟨hadm, fl, hagree, .still (fun _ => rfl) _ _⟩
      | _ => cases hallow
    | unlock l =>
      obtain ⟨-, rfl⟩ := hpoll
      exact ⟨trivial, fl, h, .still (fun _ => rfl) _ _⟩
    | notifyOne c =>
      obtain ⟨-, rfl⟩ := hpoll
      exact ⟨trivial, fl, h, .still (fun _ => rfl) _ _⟩
    | _ => cases hallow
  | dwinit =>
    cases e with
    | io i =>
      cases i with
      | readExact n =>
        cases (hallow : n = 1)
        obtain ⟨hans, hserver⟩ := guest_answers hpoll
        obtain ⟨hadm, hagree⟩ := driver_answers h hans
        rw [hserver]
        exact ⟨hadm, fl, hagree, .still (fun _ => rfl) _ _⟩
      | _ => cases hallow
    | _ => cases hallow
  | caps =>
    cases e with
    | io i =>
      cases i with
      | writeAll bs =>
        cases (hallow : bs = [dwinitResponse])
        obtain ⟨hans, hserver⟩ := guest_answers hpoll
        obtain ⟨hr, hp⟩ := write_answers hans
        rw [hserver, hp]
        exact ⟨hr, fl, caps_answers h, .still (fun _ => rfl) _ _⟩
      | _ => cases hallow
    | _ => cases hallow
  | serread =>
    cases e with
    | lock l m =>
      obtain ⟨hr, -⟩ | ⟨-, -, rfl⟩ := hpoll
      · cases hr
      · exact ⟨trivial, fl, h, .still (fun _ => rfl) _ _⟩
    | op o =>
      cases o with
      | outboxScan =>
        obtain ⟨hr, rfl⟩ := hpoll
        cases hr
        exact ⟨trivial, scan_agree h hlast⟩
      | _ => cases hallow
    | _ => cases hallow
  | reply found =>
    cases e with
    | io i =>
      cases i with
      | writeAll bs =>
        cases (hallow : bs = serreadReply found)
        obtain ⟨hans, hserver⟩ := guest_answers hpoll
        obtain ⟨hr, hp⟩ := write_answers hans
        rw [hserver, hp]
        exact ⟨hr, fl, reply_answers h, .still (fun _ => rfl) _ _⟩
      | _ => cases hallow
    | _ => cases hallow
  | serreadm =>
    cases e with
    | io i =>
      cases i with
      | readExact n =>
        cases (hallow : n = 2)
        obtain ⟨hans, hserver⟩ := guest_answers hpoll
        obtain ⟨hadm, hagree⟩ := header_answers h hans
        rw [hserver]
        exact ⟨hadm, fl, hagree, .still (fun _ => rfl) _ _⟩
      | _ => cases hallow
    | _ => cases hallow
  | pop channel count =>
    cases e with
    | lock l m =>
      obtain ⟨hr, -⟩ | ⟨-, -, rfl⟩ := hpoll
      · cases hr
      · exact ⟨trivial, fl, h, .still (fun _ => rfl) _ _⟩
    | op o =>
      cases o with
      | outboxPop c n =>
        obtain ⟨hr, rfl⟩ := hpoll
        cases hr
        obtain ⟨hc, rfl⟩ := hallow
        exact ⟨trivial, pop_agree hc h⟩
      | _ => cases hallow
    | _ => cases hallow
  | data bytes =>
    cases e with
    | io i =>
      cases i with
      | writeAll bs =>
        cases (hallow : bs = bytes)
        obtain ⟨hans, hserver⟩ := guest_answers hpoll
        obtain ⟨hr, hp⟩ := write_answers hans
        rw [hserver, hp]
        exact ⟨hr, fl, data_answers h, .still (fun _ => rfl) _ _⟩
      | _ => cases hallow
    | unlock l =>
      obtain ⟨-, rfl⟩ := hpoll
      exact ⟨trivial, fl, h, .still (fun _ => rfl) _ _⟩
    | _ => cases hallow
  | fast channel =>
    cases e with
    | io i =>
      cases i with
      | readExact n =>
        cases (hallow : n = 1)
        obtain ⟨hans, hserver⟩ := guest_answers hpoll
        obtain ⟨hadm, hagree⟩ := fast_answers (D := D) h hans
        rw [hserver]
        exact ⟨hadm, fl, hagree, .still (fun _ => rfl) _ _⟩
      | _ => cases hallow
    | _ => cases hallow
  | push channel byte =>
    cases e with
    | lock l m =>
      obtain ⟨hr, -⟩ | ⟨-, -, rfl⟩ := hpoll
      · cases hr
      · exact ⟨trivial, fl, h, .still (fun _ => rfl) _ _⟩
    | op o =>
      cases o with
      | inboxPushBack c b =>
        obtain ⟨-, rfl⟩ := hpoll
        obtain ⟨hc, rfl⟩ := hallow
        exact ⟨trivial, push_agree hc h⟩
      | _ => cases hallow
    | _ => cases hallow

/-- A session that waits for an opcode on an empty wire has nothing in hand. -/
theorem nothing_in_flight {out : Channel → List UInt8} {turn : Turn} {p : Guest}
    {fl : Channel → List UInt8} (h : Agree out turn p fl)
    (hallow : turn.Allows (.io (.readExact 1) : Eff D)) (hto : p.toServer = [])
    (hfrom : p.fromServer = []) : fl = fun _ => [] := by
  cases h with
  | ready c turn wire bs hback =>
    cases hback with
    | opcode =>
      cases bs with
      | nil => exact inFlight_nil c
      | cons b bs => cases hto
    | fast => cases hto
    | push => cases hallow
  | asked c turn wire bs hback => exact absurd hto (by simp)
  | replied found => rw [serreadReply_eq] at hfrom; cases hfrom
  | scanned | data => cases hallow
  | sent c n bytes hlen hthree =>
    cases (hfrom : bytes = [])
    rw [List.length_nil] at hlen
    omega
  | _ => rfl

/-! ## Section 6: Every interleaving -/

/-- Where the session starts. -/
def Turn.started : Turn → Turn
  | .off => .opcode
  | turn => turn

/-- The invariant: what was queued for a channel is what came back into its
    inbox, what is on its way, and what is queued still. -/
structure Round (s : Server D) (g : Nat) (tr : List (SysLabel D)) (turns : Tid → Turn)
    (w : World D F (Guest × N)) : Prop where
  others : ∀ t, t ≠ .guest g → turns t = .off ∨ turns t = .other
  last   : w.server.vserialOutbox lastChannel = []
  way    : ∃ fl, Agree w.server.vserialOutbox (turns (.guest g)).started w.net.1 fl ∧
    ∀ c, s.vserialOutbox c ++ traffic (fun o _ => outboxIn c o) tr =
      traffic (fun o _ => inboxIn c o) tr ++ fl c ++ w.server.vserialOutbox c

theorem traffic_inbox_one (c : Channel) (t : Tid) (e : Eff D) (r : e.Res) :
    traffic (fun o _ => inboxIn c o) [(t, ⟨e, r⟩)] = pushed c e := by
  cases e with
  | op o => exact List.append_nil _
  | _ => rfl

/-- These are states of a running guest session. -/
theorem agree_turn {out : Channel → List UInt8} {turn : Turn} {p : Guest}
    {fl : Channel → List UInt8} (h : Agree out turn p fl) : turn ≠ .other ∧ turn ≠ .off := by
  cases h with
  | ready _ _ wire bs hback => cases hback <;> simp
  | asked _ _ wire bs hback => cases hback <;> simp
  | _ => simp

theorem leaving_of_bystander {e : Eff D} (h : Bystander e) : Leaving e := by
  cases e with
  | op o => cases o <;> trivial
  | _ => trivial

theorem pushed_of_bystander {e : Eff D} (h : Bystander e) (c : Channel) : pushed c e = [] := by
  cases e with
  | op o => cases o <;> first | rfl | cases h
  | _ => rfl

theorem started_eq {turn : Turn} (h : turn ≠ .off) : turn.started = turn := by
  cases turn with
  | off => exact absurd rfl h
  | _ => rfl

theorem allows_started {turn : Turn} {e : Eff D} (h : turn.Allows e) : turn.started = turn := by
  apply started_eq
  rintro rfl
  cases e <;> cases h

/-- The session queues nothing for itself. -/
theorem session_sends {turn : Turn} {e : Eff D} (h : turn.Allows e) (hturn : turn ≠ .other)
    (c : Channel) (bs : List UInt8) : e ≠ .op (.outboxExtend c bs) := by
  rintro rfl
  cases turn with
  | other => exact hturn rfl
  | _ => cases h

section runs

variable {rest : Env D F N} {g : Nat}

theorem guest_pending {i : Io} {p : Guest} (h : (p.answer i).1 = .pending) :
    (p.answer i).2 = p := by
  cases i with
  | readExact n =>
    by_cases hn : n ≤ p.toServer.length
    · rw [Guest.answer, dif_pos hn] at h
      cases h
    · rw [Guest.answer, dif_neg hn]
  | writeAll bs => cases h
  | _ => rfl

/-- The guest notices nothing when its session is polled in vain. -/
theorem poll_pending_guest {t : Tid} {e : Eff D} {w w' : World D F (Guest × N)}
    (h : poll (withEcho rest g) t e w .pending w') : w'.net.1 = w.net.1 := by
  cases e with
  | io i =>
    obtain ⟨n, hnet, rfl⟩ := h
    rcases hnet with ⟨-, ⟨-, hn⟩ | ⟨hr, hn⟩⟩ | ⟨-, hn, -⟩
    · exact congrArg Prod.fst hn
    · show n.1 = w.net.1
      rw [hn]
      exact guest_pending hr.symm
    · exact hn
  | _ => rw [poll_net h fun _ h => by cases h]

/-- Other tasks do not speak to the guest. -/
theorem poll_other_guest {t : Tid} {e : Eff D} {r : e.Res} {w w' : World D F (Guest × N)}
    (ht : t ≠ .guest g) (h : poll (withEcho rest g) t e w (.ready r) w') :
    w'.net.1 = w.net.1 := by
  cases e with
  | io i =>
    obtain ⟨n, hnet, rfl⟩ := h
    rcases hnet with ⟨hguest, -⟩ | ⟨-, hn, -⟩
    · exact absurd hguest ht
    · exact hn
  | _ => rw [poll_net h fun _ h => by cases h]

/-- A step of the session keeps the invariant. -/
theorem session_keeps {s : Server D} {tr : List (SysLabel D)} {turns : Tid → Turn} {e : Eff D}
    {r : e.Res} {w w' : World D F (Guest × N)} (h : Round s g tr turns w)
    (hallow : (turns (.guest g)).Allows e)
    (hpoll : poll (withEcho rest g) (.guest g) e w (.ready r) w') :
    (turns (.guest g)).Admits e r ∧ Round s g (tr ++ [(.guest g, ⟨e, r⟩)])
      (Function.update turns (.guest g) ((turns (.guest g)).next e r)) w' := by
  obtain ⟨fl, hagree, hway⟩ := h.way
  rw [allows_started hallow] at hagree
  have hturn := (agree_turn hagree).1
  obtain ⟨hadm, fl', hagree', hmoves⟩ := session_moves hagree h.last hallow hturn hpoll
  refine ⟨hadm, fun t ht => ?_, hmoves.shrink _ h.last, fl', ?_, fun c => ?_⟩
  · rw [Function.update_of_ne ht]
    exact h.others t ht
  · rw [Function.update_self, started_eq (agree_turn hagree').2]
    exact hagree'
  · have hnone : traffic (fun o _ => outboxIn c o) [((.guest g, ⟨e, r⟩) : SysLabel D)] = [] := by
      refine traffic_of_not_sends fun l hl => ?_
      rintro ⟨bs, heq⟩
      rw [List.mem_singleton.mp hl] at heq
      exact session_sends hallow hturn c bs heq
    rw [traffic_append, traffic_append, hnone, List.append_nil, traffic_inbox_one, hway c]
    have hstream := hmoves.stream c
    simp only [List.append_assoc] at hstream ⊢
    rw [hstream]

/-- So does a step of any other task. -/
theorem other_keeps {s : Server D} {tr : List (SysLabel D)} {turns : Tid → Turn} {t : Tid}
    {e : Eff D} {r : e.Res} {w w' : World D F (Guest × N)} (h : Round s g tr turns w)
    (ht : t ≠ .guest g) (hallow : (turns t).Allows e)
    (hok : ¬ Sends lastChannel ((t, ⟨e, r⟩) : SysLabel D))
    (hpoll : poll (withEcho rest g) t e w (.ready r) w') :
    (turns t).Admits e r ∧ Round s g (tr ++ [(t, ⟨e, r⟩)])
      (Function.update turns t ((turns t).next e r)) w' := by
  -- no other task speaks to the guest or takes from the outbox
  have hturn : turns t = .other := by
    rcases h.others t ht with hoff | hother
    · rw [hoff] at hallow
      cases e <;> cases hallow
    · exact hother
  rw [hturn] at hallow ⊢
  have hby : Bystander e := by cases e <;> exact hallow
  have hout : w'.server.vserialOutbox = queued e w.server.vserialOutbox := by
    rw [poll_server hpoll]
    exact leaving_outbox (leaving_of_bystander hby) w.server
  obtain ⟨fl, hagree, hway⟩ := h.way
  have hsame : Function.update turns t .other (.guest g) = turns (.guest g) :=
    Function.update_of_ne (Ne.symm ht) _ _
  rw [other_next]
  refine ⟨by cases e <;> trivial, fun u hu => ?_, ?_, fl, ?_, fun c => ?_⟩
  · by_cases hut : u = t
    · subst hut
      exact .inr (Function.update_self ..)
    · rw [Function.update_of_ne hut]
      exact h.others u hu
  · rw [hout]
    exact (queued_of_not_sends hok _).trans h.last
  · rw [hsame, hout, poll_other_guest ht hpoll]
    exact hagree.mono (queued_grows e _)
  · have hqueued : w'.server.vserialOutbox c = w.server.vserialOutbox c ++
        traffic (fun o _ => outboxIn c o) [((t, ⟨e, r⟩) : SysLabel D)] := by
      rw [hout]
      exact queued_traffic (t, ⟨e, r⟩) _ c
    rw [traffic_append, traffic_append, traffic_inbox_one, pushed_of_bystander hby,
      List.append_nil, ← List.append_assoc, hway c, hqueued, List.append_assoc]

variable [VDisk D] [UnicodeTables]

variable (rest g) in
def echoDiscipline : Discipline (system (withEcho rest g)) Turn where
  toProtocol := echoing
  off        := .off
  gone       := .off
  enter      := Turn.enter
  leave      := Turn.Leaves
  body_obeys := body_echoing

theorem echoDiscipline_keeps (s : Server D) :
    (echoDiscipline rest g).KeepsAlong (fun _ l => ¬ Sends lastChannel l) (Round s g) where
  start := by
    intro tr turns w t h hoff hmay
    have hwas : turns t = .off := hoff
    refine ⟨fun u hu => ?_, h.last, ?_⟩
    · by_cases hut : u = t
      · subst hut
        rw [Function.update_self]
        cases u with
        | guest k =>
          -- no second guest session is accepted
          rcases hmay with hk | ⟨hnone, -⟩
          · exact absurd hk hu
          · exact absurd rfl (hnone k)
        | _ => exact .inr rfl
      · rw [Function.update_of_ne hut]
        exact h.others u hu
    · by_cases ht : t = .guest g
      · subst ht
        have hway := h.way
        rw [hwas] at hway
        rw [Function.update_self]
        exact hway
      · rw [Function.update_of_ne (Ne.symm ht)]
        exact h.way
  again := by
    intro tr turns w t h hleave
    have hsame : (echoDiscipline rest g).enter t = turns t := by
      cases t <;> exact hleave.symm
    rw [hsame, Function.update_eq_self]
    exact h
  exit := by
    intro tr turns w t r h hleave
    have ht : t ≠ .guest g := by
      rintro rfl
      exact hleave
    refine ⟨fun u hu => ?_, h.last, ?_⟩
    · by_cases hut : u = t
      · subst hut
        exact .inl (Function.update_self ..)
      · rw [Function.update_of_ne hut]
        exact h.others u hu
    · rw [Function.update_of_ne (Ne.symm ht)]
      exact h.way
  pending := by
    intro tr turns w t e w' h _ hpoll
    refine ⟨h.others, ?_, ?_⟩
    · rw [poll_pending_server hpoll]
      exact h.last
    · rw [poll_pending_server hpoll, poll_pending_guest hpoll]
      exact h.way
  ready := by
    intro tr c turns t e k r w' h _ _ hallow hok hpoll
    -- the session moves bytes along; any other task may only add some
    by_cases ht : t = .guest g
    · subst ht
      exact session_keeps h hallow hpoll
    · exact other_keeps h ht hallow hok hpoll
  ambient := by
    rintro tr turns w w' h ⟨n, hnet, rfl⟩
    obtain ⟨fl, hagree, hway⟩ := h.way
    rcases hnet with ⟨hstep, -⟩ | ⟨hn, -⟩
    · exact ⟨h.others, h.last, fl, guest_moves hagree hstep, hway⟩
    · refine ⟨h.others, h.last, fl, ?_, hway⟩
      show Agree _ _ n.1 fl
      rw [hn]
      exact hagree

end runs

/-! ## Section 7: Until everything has come back -/

/-- The session on its own, answered by the guest, while no host queues
    anything. -/
def echoAnswer (g : Nat) : (e : Eff D) → World D F (Guest × N) →
    Option (e.Res × World D F (Guest × N))
  | .io i, w =>
    match w.net.1.answer i with
    | (.ready r, p) => some (r, { w with net := (p, w.net.2) })
    | (.pending, _) => none
  | .lock l m, w => if w.holders l = [] then some ((), w.acquire (.guest g) l m) else none
  | .unlock l, w => some ((), w.release (.guest g) l)
  | .notifyOne c, w =>
    some ((), { w with notify := Function.update w.notify c (w.notify c).notifyOne })
  | .op (.outboxExtend _ _), _ => none
  | .op o, w => some ((o.run w.server).1, { w with server := (o.run w.server).2 })
  | _, _ => none

theorem echoAnswer_poll {rest : Env D F N} {g : Nat} {e : Eff D} {r : e.Res}
    {w w' : World D F (Guest × N)} (h : echoAnswer g e w = some (r, w')) :
    poll (withEcho rest g) (.guest g) e w (.ready r) w' := by
  -- what the computed answers leave out needs another task
  cases e with
  | io i =>
    rw [echoAnswer] at h
    split at h
    · rename_i r' p hans
      cases h
      refine ⟨(p, w.net.2), .inl ⟨rfl, .inr ⟨?_, ?_⟩⟩, rfl⟩ <;> rw [hans]
    · cases h
  | lock l m =>
    by_cases hl : w.holders l = []
    · rw [echoAnswer, if_pos hl] at h
      cases h
      exact .inr ⟨World.free_of_nil hl m, rfl, rfl⟩
    · rw [echoAnswer, if_neg hl] at h
      cases h
  | unlock l =>
    cases h
    exact ⟨rfl, rfl⟩
  | notifyOne c =>
    cases h
    exact ⟨rfl, rfl⟩
  | op o =>
    cases o with
    | outboxExtend c bs => cases h
    | _ =>
      cases h
      exact ⟨rfl, rfl⟩
  | _ => cases h

/-- The session waits for an opcode, the guest is in the state `p`, and nobody
    uses the queues. -/
structure Standing (g : Nat) (p : Guest) (c : SysConfig D F (Guest × N)) : Prop where
  task   : c.task (.guest g) = .live guestOnce
  guest  : c.world.net.1 = p
  inbox  : c.world.holders .vserialInbox = []
  outbox : c.world.holders .vserialOutbox = []

/-- A lock that is given back is free, and a free one stays so. -/
theorem update_free {holders : Lock → List (Tid × Mode)} (l : Lock) {l' : Lock}
    (h : holders l' = []) : Function.update holders l [] l' = [] := by
  by_cases hl : l' = l
  · rw [hl, Function.update_self]
  · rw [Function.update_of_ne hl, h]

section progress

variable [VDisk D] [UnicodeTables] {rest : Env D F N} {g : Nat}

/-- No bytes are queued for the guest. -/
def nothingSent (_ : SysConfig D F (Guest × N)) (l : SysLabel D) : Prop := ∀ c, ¬ Sends c l

variable (rest) in
/-- One iteration of the session. -/
theorem session_run {c : SysConfig D F (Guest × N)} {w : World D F (Guest × N)} {p : Guest}
    (hc : Standing g p c) (heval : guestOnce.eval (echoAnswer g) c.world = some (.again, w)) :
    ∃ tr, Run (system (withEcho rest g)) nothingSent c tr { c with world := w } := by
  have hok : ∀ (c : SysConfig D F (Guest × N)) (e : Eff D) (r : e.Res) w',
      echoAnswer g e c.world = some (r, w') → nothingSent c (.guest g, ⟨e, r⟩) := by
    rintro c e r w' h ch ⟨bs, heq⟩
    cases (heq : e = _)
    cases h
  have hself : Run (system (withEcho rest g)) nothingSent c [] c := Run.refl c
  obtain ⟨tr, hrun⟩ := hself.of_eval (fun _ _ _ _ => echoAnswer_poll) hok hc.task heval
  refine ⟨tr, ?_⟩
  have hagain := hrun.silent (Step.again (.guest g) (Config.put_self ..))
  have hsame : ((c.put (.guest g) (.live (.ret .again)) w).put (.guest g)
      (.live ((system (withEcho rest g)).body (.guest g))) w) = { c with world := w } := by
    have hbody : (system (withEcho rest g)).body (.guest g) = guestOnce := rfl
    rw [hbody, ← hc.task]
    simp [Config.put]
  rwa [← hsame]

variable (rest) in
/-- One step of the guest. -/
theorem guest_run {c : SysConfig D F (Guest × N)} {p p' : Guest} (hc : Standing g p c)
    (hstep : p.step = some p') : ∃ c', Run (system (withEcho rest g)) nothingSent c [] c' ∧
      Standing g p' c' ∧ c'.world.server = c.world.server := by
  have hambient : (system (withEcho rest g)).ambient c.world
      { c.world with net := (p', c.world.net.2) } := by
    refine ⟨(p', c.world.net.2), .inl ⟨?_, rfl⟩, rfl⟩
    rw [hc.guest]
    exact hstep
  exact ⟨_, Run.silent (Run.refl c) (Step.ambient _ hambient),
    ⟨hc.task, rfl, hc.inbox, hc.outbox⟩, rfl⟩

variable (rest) in
/-- The server answers the greeting. -/
theorem dwinit_run {c : SysConfig D F (Guest × N)}
    (hc : Standing g ⟨[opDwinit, 0x42], [], .greeting⟩ c) : ∃ tr c',
      Run (system (withEcho rest g)) nothingSent c tr c' ∧
      Standing g ⟨[], [dwinitResponse], .greeting⟩ c' ∧
      c'.world.server.vserialOutbox = c.world.server.vserialOutbox := by
  have hread : echoAnswer g (.io (.readExact 1)) c.world = some (.ok #v[opDwinit],
      { c.world with net := (⟨[0x42], [], .greeting⟩, c.world.net.2) }) := by
    rw [echoAnswer, hc.guest]
    rfl
  have heval : guestOnce.eval (echoAnswer g) c.world = some (.again,
      { c.world with net := (⟨[], [dwinitResponse], .greeting⟩, c.world.net.2) }) := by
    rw [guestOnce, runOnce_eq, Prog.eff_bind, Prog.eval_eff, hread]
    rfl
  obtain ⟨tr, hrun⟩ := session_run rest hc heval
  exact ⟨tr, _, hrun, ⟨hc.task, rfl, hc.inbox, hc.outbox⟩, rfl⟩

variable (rest) in
/-- The server scans the outboxes and replies. -/
theorem serread_run {c : SysConfig D F (Guest × N)}
    (hc : Standing g ⟨[opSerread], [], .reply⟩ c) : ∃ tr c',
      Run (system (withEcho rest g)) nothingSent c tr c' ∧
      Standing g ⟨[], serreadReply (scanOutbox (List.finRange vserialChannels)
        c.world.server.vserialOutbox).1, .reply⟩ c' ∧
      c'.world.server.vserialOutbox =
        (scanOutbox (List.finRange vserialChannels) c.world.server.vserialOutbox).2 := by
  have hread : echoAnswer g (.io (.readExact 1)) c.world = some (.ok #v[opSerread],
      { c.world with net := (⟨[], [], .reply⟩, c.world.net.2) }) := by
    rw [echoAnswer, hc.guest]
    rfl
  have heval : guestOnce.eval (echoAnswer g) c.world = some (.again,
      { c.world with
        server := (Op.outboxScan.run c.world.server).2
        net := (⟨[], serreadReply (Op.outboxScan.run c.world.server).1, .reply⟩, c.world.net.2)
        holders := Function.update c.world.holders .vserialOutbox [] }) := by
    rw [guestOnce, runOnce_eq, Prog.eff_bind, Prog.eval_eff, hread]
    show ((handleSerread (D := D)).run >>= fun r => Prog.ret (flowOf r)).eval _ _ = _
    rw [handleSerread_eq]
    simp [echoAnswer, World.acquire, World.release, hc.outbox, Guest.answer, flowOf]
  obtain ⟨tr, hrun⟩ := session_run rest hc heval
  exact ⟨tr, _, hrun, ⟨hc.task, rfl, update_free .vserialOutbox hc.inbox,
    update_free .vserialOutbox hc.outbox⟩, rfl⟩

variable (rest) in
/-- The server pops the bytes of a burst. -/
theorem serreadm_run {c : SysConfig D F (Guest × N)} {ch : Channel} {n : UInt8}
    (hc : Standing g ⟨[opSerreadm, idOf ch, n], [], .burst (idOf ch) n⟩ c) : ∃ tr c',
      Run (system (withEcho rest g)) nothingSent c tr c' ∧
      Standing g ⟨[], (popFronts n.toNat (c.world.server.vserialOutbox ch)).1.toList.map
        (·.getD 0), .burst (idOf ch) n⟩ c' ∧
      c'.world.server.vserialOutbox = Function.update c.world.server.vserialOutbox ch
        ((c.world.server.vserialOutbox ch).drop n.toNat) := by
  have hread : echoAnswer g (.io (.readExact 1)) c.world = some (.ok #v[opSerreadm],
      { c.world with net := (⟨[idOf ch, n], [], .burst (idOf ch) n⟩, c.world.net.2) }) := by
    rw [echoAnswer, hc.guest]
    rfl
  have hheader : echoAnswer g (.io (.readExact 2))
      { c.world with net := (⟨[idOf ch, n], [], .burst (idOf ch) n⟩, c.world.net.2) } =
        some (.ok #v[idOf ch, n],
          { c.world with net := (⟨[], [], .burst (idOf ch) n⟩, c.world.net.2) }) := rfl
  have hlt : (idOf ch).toNat < vserialChannels := by
    rw [idOf_toNat]
    exact ch.isLt
  have hch : (⟨(idOf ch).toNat, hlt⟩ : Channel) = ch := Fin.ext (idOf_toNat ch)
  have hd : Decoded.fromByte (byte0 #v[opSerreadm]) = .op .serReadM := by decide
  -- one iteration of the loop, computed
  have heval : guestOnce.eval (echoAnswer g) c.world = some (.again,
      { c.world with
        server := ((Op.outboxPop ch n.toNat).run c.world.server).2
        net := (⟨[], (popFronts n.toNat (c.world.server.vserialOutbox ch)).1.toList.map
          (·.getD 0), .burst (idOf ch) n⟩, c.world.net.2)
        holders := Function.update c.world.holders .vserialOutbox [] }) := by
    rw [guestOnce, runOnce_eq, Prog.eff_bind, Prog.eval_eff, hread, Option.bind_some]
    dsimp only
    rw [hd]
    show ((handleSerreadm (D := D)).run >>= fun r => Prog.ret (flowOf r)).eval _ _ = _
    rw [handleSerreadm, run_readExact_bind, Prog.eff_bind, Prog.eval_eff, hheader]
    show ((call (popPadded (idOf ch) n) >>= fun buf => writeAll buf).run >>= fun r =>
      Prog.ret (flowOf r)).eval _ _ = _
    rw [run_call_bind, popPadded, dif_pos hlt, hch, guarded_eq]
    simp [echoAnswer, World.acquire, World.release, hc.outbox, Guest.answer, flowOf, Op.lock,
      Op.run, run_writeAll]
  obtain ⟨tr, hrun⟩ := session_run rest hc heval
  refine ⟨tr, _, hrun, ⟨hc.task, rfl, update_free .vserialOutbox hc.inbox,
    update_free .vserialOutbox hc.outbox⟩, ?_⟩
  rw [← popFronts_snd]
  rfl

variable (rest) in
/-- The server takes one frame of an echo. -/
theorem fastwrite_run {c : SysConfig D F (Guest × N)} {ch : Channel} {b : UInt8}
    {bs : List UInt8} (hc : Standing g ⟨echoBack (idOf ch) (b :: bs), [], .ready⟩ c) :
    ∃ tr c', Run (system (withEcho rest g)) nothingSent c tr c' ∧
      Standing g ⟨echoBack (idOf ch) bs, [], .ready⟩ c' ∧
      c'.world.server.vserialOutbox = c.world.server.vserialOutbox := by
  let p₁ : Guest := ⟨b :: echoBack (idOf ch) bs, [], .ready⟩
  let p₂ : Guest := ⟨echoBack (idOf ch) bs, [], .ready⟩
  have hread : echoAnswer g (.io (.readExact 1)) c.world =
      some (.ok #v[opFastwriteBase + idOf ch], { c.world with net := (p₁, c.world.net.2) }) := by
    rw [echoAnswer, hc.guest]
    rfl
  have hbyte : echoAnswer g (.io (.readExact 1)) { c.world with net := (p₁, c.world.net.2) } =
      some (.ok #v[b], { c.world with net := (p₂, c.world.net.2) }) := rfl
  have hlt : (idOf ch).toNat < vserialChannels := by
    rw [idOf_toNat]
    exact ch.isLt
  have hch : (⟨(idOf ch).toNat, hlt⟩ : Channel) = ch := Fin.ext (idOf_toNat ch)
  have hd : Decoded.fromByte (byte0 #v[opFastwriteBase + idOf ch]) = .fastWrite (idOf ch) :=
    fromByte_fast ch
  -- one iteration of the loop, computed
  have heval : guestOnce.eval (echoAnswer g) c.world = some (.again,
      { c.world with
        server := ((Op.inboxPushBack ch b).run c.world.server).2
        net := (p₂, c.world.net.2)
        notify := Function.update c.world.notify ch (c.world.notify ch).notifyOne
        holders := Function.update c.world.holders .vserialInbox [] }) := by
    rw [guestOnce, runOnce_eq, Prog.eff_bind, Prog.eval_eff, hread, Option.bind_some]
    dsimp only
    rw [hd]
    show ((handleFastwrite (D := D) (idOf ch)).run >>= fun r => Prog.ret (flowOf r)).eval _ _ = _
    rw [handleFastwrite, run_readExact_bind, Prog.eff_bind, Prog.eval_eff, hbyte]
    show ((call (pushVserial (idOf ch) b)).run >>= fun r => Prog.ret (flowOf r)).eval _ _ = _
    rw [run_call, pushVserial, dif_pos hlt, hch, guarded_eq]
    simp [echoAnswer, World.acquire, World.release, hc.inbox, flowOf, Op.lock, Op.run, await]
  obtain ⟨tr, hrun⟩ := session_run rest hc heval
  exact ⟨tr, _, hrun, ⟨hc.task, rfl, update_free .vserialInbox hc.inbox,
    update_free .vserialInbox hc.outbox⟩, rfl⟩

variable (rest) in
/-- The server takes an echo, frame by frame. -/
theorem frames_run {ch : Channel} (bs : List UInt8) {c : SysConfig D F (Guest × N)}
    (hc : Standing g ⟨echoBack (idOf ch) bs, [], .ready⟩ c) :
    ∃ tr c', Run (system (withEcho rest g)) nothingSent c tr c' ∧
      Standing g ⟨[], [], .ready⟩ c' ∧
      c'.world.server.vserialOutbox = c.world.server.vserialOutbox := by
  induction bs generalizing c with
  | nil => exact ⟨[], c, Run.refl c, hc, rfl⟩
  | cons b bs ih =>
    obtain ⟨tr, c₁, hrun, hc₁, hout⟩ := fastwrite_run rest hc
    obtain ⟨tr', c₂, hrun', hc₂, hout'⟩ := ih hc₁
    exact ⟨tr ++ tr', c₂, hrun.trans hrun', hc₂, hout'.trans hout⟩

variable (rest) in
/-- The guest greets the server. -/
theorem greet_run {c : SysConfig D F (Guest × N)} (hc : Standing g .new c) :
    ∃ tr c', Run (system (withEcho rest g)) nothingSent c tr c' ∧
      Standing g ⟨[], [], .ready⟩ c' ∧
      c'.world.server.vserialOutbox = c.world.server.vserialOutbox := by
  obtain ⟨c₁, hrun₁, hc₁, hserver₁⟩ := guest_run rest hc rfl
  obtain ⟨tr, c₂, hrun₂, hc₂, hout₂⟩ := dwinit_run rest hc₁
  obtain ⟨c₃, hrun₃, hc₃, hserver₃⟩ := guest_run rest hc₂ rfl
  refine ⟨_, c₃, (hrun₁.trans hrun₂).trans hrun₃, hc₃, ?_⟩
  rw [hserver₃, hout₂, hserver₁]

variable (rest) in
/-- The guest asks for a burst, and sends it back. -/
theorem burst_run {c : SysConfig D F (Guest × N)} {ch : Channel} {n : UInt8}
    (hc : Standing g ⟨[opSerreadm, idOf ch, n], [], .burst (idOf ch) n⟩ c)
    (hpromise : Promise c.world.server.vserialOutbox (.burst ch n)) :
    ∃ tr c', Run (system (withEcho rest g)) nothingSent c tr c' ∧
      Standing g ⟨[], [], .ready⟩ c' ∧
      c'.world.server.vserialOutbox = Function.update c.world.server.vserialOutbox ch
        ((c.world.server.vserialOutbox ch).drop n.toNat) := by
  obtain ⟨tr₁, c₁, hrun₁, hc₁, hout₁⟩ := serreadm_run rest hc
  obtain ⟨hbytes, -, -⟩ := pop_moves hpromise (fun _ => []) []
  rw [hbytes] at hc₁
  have hlen : ((c.world.server.vserialOutbox ch).take n.toNat).length = n.toNat := by
    rw [List.length_take]
    exact min_eq_left hpromise.2.2
  obtain ⟨c₂, hrun₂, hc₂, hserver₂⟩ := guest_run rest hc₁ (step_echoes hlen (idOf ch))
  obtain ⟨tr₃, c₃, hrun₃, hc₃, hout₃⟩ := frames_run rest _ hc₂
  refine ⟨_, c₃, (hrun₁.trans hrun₂).trans hrun₃, hc₃, ?_⟩
  rw [hout₃, hserver₂, hout₁]

variable (rest) in
/-- One poll: it finds every queue empty, or takes something away. -/
theorem poll_run {c : SysConfig D F (Guest × N)} (hc : Standing g ⟨[], [], .ready⟩ c)
    (hlast : c.world.server.vserialOutbox lastChannel = []) :
    ∃ tr c', Run (system (withEcho rest g)) nothingSent c tr c' ∧
      Standing g ⟨[], [], .ready⟩ c' ∧ c'.world.server.vserialOutbox lastChannel = [] ∧
      ((∀ ch, c'.world.server.vserialOutbox ch = []) ∨
        total c'.world.server.vserialOutbox < total c.world.server.vserialOutbox) := by
  obtain ⟨c₁, hrun₁, hc₁, hserver₁⟩ := guest_run rest hc rfl
  obtain ⟨tr₂, c₂, hrun₂, hc₂, hout₂⟩ := serread_run rest hc₁
  rw [hserver₁] at hc₂ hout₂
  generalize hscan : scanOutbox (List.finRange vserialChannels) c.world.server.vserialOutbox =
    scan at hc₂ hout₂
  obtain ⟨found, out'⟩ := scan
  obtain ⟨c₃, hrun₃, hc₃, hserver₃⟩ := guest_run rest hc₂ (step_reply found)
  obtain ⟨hpromise, hmoves⟩ := scan_moves hlast (fun _ => []) [] hscan
  obtain ⟨hfound, hafter⟩ := scanOutbox_found c.world.server.vserialOutbox
  rw [hscan] at hfound hafter
  have hrun := (hrun₁.trans hrun₂).trans hrun₃
  have hout₃ : c₃.world.server.vserialOutbox = out' := by rw [hserver₃, hout₂]
  have hlast' : out' lastChannel = [] := hmoves.shrink _ hlast
  cases found with
  | empty =>
    have hsame : out' = c.world.server.vserialOutbox := hafter
    refine ⟨_, c₃, hrun, hc₃, by rwa [hout₃], .inl fun ch => ?_⟩
    rw [hout₃, hsame]
    exact hfound ch
  | byte ch b =>
    rw [Guest.handle, replySecond, decode_byte hpromise b] at hc₃
    obtain ⟨tr₄, c₄, hrun₄, hc₄, hout₄⟩ := frames_run rest [b] hc₃
    rw [hout₃] at hout₄
    refine ⟨_, c₄, hrun.trans hrun₄, hc₄, by rwa [hout₄], .inr ?_⟩
    -- the byte that was found is gone
    have hafter : out' = afterScan c.world.server.vserialOutbox (.byte ch b) := hafter
    have hone := total_update c.world.server.vserialOutbox ch
      (c.world.server.vserialOutbox ch).tail
    have hlen := congrArg List.length (List.cons_head?_tail hfound.2.2)
    rw [List.length_cons] at hlen
    rw [hout₄, hafter, afterScan]
    omega
  | burst ch n =>
    rw [Guest.handle, replySecond, decode_burst hpromise.1 n] at hc₃
    rw [← hout₃] at hpromise
    obtain ⟨tr₄, c₄, hrun₄, hc₄, hout₄⟩ := burst_run rest hc₃ hpromise
    rw [hout₃] at hpromise hout₄
    obtain ⟨-, -, hpop⟩ := pop_moves hpromise (fun _ => []) []
    refine ⟨_, c₄, hrun.trans hrun₄, hc₄, ?_, .inr ?_⟩
    · rw [hout₄]
      exact hpop.shrink _ hlast'
    · -- at least three bytes are taken
      have hsame : out' = c.world.server.vserialOutbox := hafter
      have hfewer := total_update out' ch ((out' ch).drop n.toNat)
      obtain ⟨-, hthree, hle⟩ := hpromise
      rw [List.length_drop] at hfewer
      rw [hout₄, ← hsame]
      omega

variable (rest) in
/-- Polling on, by induction on the number of queued bytes. -/
theorem polls_run {c : SysConfig D F (Guest × N)} (hc : Standing g ⟨[], [], .ready⟩ c)
    (hlast : c.world.server.vserialOutbox lastChannel = []) :
    ∃ tr c', Run (system (withEcho rest g)) nothingSent c tr c' ∧
      Standing g ⟨[], [], .ready⟩ c' ∧ ∀ ch, c'.world.server.vserialOutbox ch = [] := by
  induction hn : total c.world.server.vserialOutbox using Nat.strong_induction_on
    generalizing c with
  | _ n ih =>
    obtain ⟨tr, c', hrun, hc', hlast', hempty | hfewer⟩ := poll_run rest hc hlast
    · exact ⟨tr, c', hrun, hc', hempty⟩
    · obtain ⟨tr', c'', hrun', hc'', hempty⟩ := ih _ (hn ▸ hfewer) hc' hlast' rfl
      exact ⟨tr ++ tr', c'', hrun.trans hrun', hc'', hempty⟩

end progress

/-! ## Section 8: The round of a byte -/

section echo

variable [VDisk D] [UnicodeTables] (rest : Env D F N) (g : Nat)

theorem round_run (s : Server D) (f : F) (n : N) (hlast : s.vserialOutbox lastChannel = [])
    {tr : List (SysLabel D)} {c : SysConfig D F (Guest × N)}
    (hrun : Run (system (withEcho rest g)) (fun _ l => ¬ Sends lastChannel l)
      (Config.initial (World.initial s f (Guest.new, n))) tr c) :
    ∃ turns, (echoDiscipline rest g).Holds (Round s g tr) c turns := by
  refine (echoDiscipline rest g).run_along (echoDiscipline_keeps s) hrun ?_
  refine (echoDiscipline rest g).holds_initial ⟨fun _ _ => .inl rfl, hlast, _, .connected, ?_⟩
  intro c
  exact List.append_nil _

variable {rest g}

/-- Nothing is on its way, and no host has queued anything that is not taken
    yet. -/
structure Rests (g : Nat) (c : SysConfig D F (Guest × N)) : Prop where
  task       : c.task (.guest g) = .live guestOnce
  toServer   : c.world.net.1.toServer = []
  fromServer : c.world.net.1.fromServer = []
  empty      : ∀ ch, c.world.server.vserialOutbox ch = []

theorem everything_back {s : Server D} {tr : List (SysLabel D)} {turns : Tid → Turn}
    {c : SysConfig D F (Guest × N)} (h : (echoDiscipline rest g).Holds (Round s g tr) c turns)
    (hc : Rests g c) (ch : Channel) :
    traffic (fun o _ => inboxIn ch o) tr =
      s.vserialOutbox ch ++ traffic (fun o _ => outboxIn ch o) tr := by
  obtain ⟨fl, hagree, hway⟩ := h.1.way
  have hfits := h.2 (.guest g)
  rw [hc.task] at hfits
  have hallow : (turns (.guest g)).Allows (.io (.readExact 1) : Eff D) := hfits.1
  rw [allows_started hallow] at hagree
  rw [hway ch, nothing_in_flight hagree hallow hc.toServer hc.fromServer, hc.empty ch,
    List.append_nil, List.append_nil]

/-- **Everything that hosts send to the echo guest comes back, in order.**  The
    bytes that the guest's frames have put into the inbox of a channel are a
    prefix of those that were queued for the channel, whatever hosts and other
    tasks do meanwhile; they are what a host drains there; nothing is missing
    whenever the session and the wire rest; and from every state between two
    polls, in which nobody uses the queues, this is reached if no more bytes
    are queued. -/
theorem echo (s : Server D) (f : F) (n : N) (hlast : s.vserialOutbox lastChannel = [])
    {tr : List (SysLabel D)} {c : SysConfig D F (Guest × N)}
    (hrun : Run (system (withEcho rest g)) (fun _ l => ¬ Sends lastChannel l)
      (Config.initial (World.initial s f (Guest.new, n))) tr c) :
    (∀ ch, ∃ echoed, echoed <+: s.vserialOutbox ch ++ traffic (fun o _ => outboxIn ch o) tr ∧
      s.vserialInbox ch ++ echoed =
        traffic (inboxOut ch) tr ++ c.world.server.vserialInbox ch ∧
      (Rests g c → echoed = s.vserialOutbox ch ++ traffic (fun o _ => outboxIn ch o) tr)) ∧
    (Standing g .new c ∨ Standing g ⟨[], [], .ready⟩ c →
      ∃ tr' c', Run (system (withEcho rest g)) nothingSent c tr' c' ∧ Rests g c' ∧
        ∀ ch, traffic (fun o _ => inboxIn ch o) (tr ++ tr') =
          s.vserialOutbox ch ++ traffic (fun o _ => outboxIn ch o) tr) := by
  obtain ⟨turns, hturns⟩ := round_run rest g s f n hlast hrun
  refine ⟨fun ch => ⟨traffic (fun o _ => inboxIn ch o) tr, ?_, ?_, ?_⟩, fun hstands => ?_⟩
  · obtain ⟨fl, -, hway⟩ := hturns.1.way
    rw [hway ch, List.append_assoc]
    exact List.prefix_append _ _
  · exact run_conserves (fun s => s.vserialInbox ch) (fun o => inboxIn ch o) (inboxOut ch)
      (run_inbox ch) hrun
  · exact fun hc => everything_back hturns hc ch
  · -- the greeting, if there was none yet
    obtain ⟨tr₁, c₁, hrun₁, hc₁, hout₁⟩ : ∃ tr₁ c₁,
        Run (system (withEcho rest g)) nothingSent c tr₁ c₁ ∧ Standing g ⟨[], [], .ready⟩ c₁ ∧
          c₁.world.server.vserialOutbox = c.world.server.vserialOutbox := by
      rcases hstands with hnew | hready
      · exact greet_run rest hnew
      · exact ⟨[], c, Run.refl c, hready, rfl⟩
    have hlast₁ : c₁.world.server.vserialOutbox lastChannel = [] := by
      rw [hout₁]
      exact hturns.1.last
    obtain ⟨tr₂, c₂, hrun₂, hc₂, hempty⟩ := polls_run rest hc₁ hlast₁
    have hmore := hrun₁.trans hrun₂
    have hrests : Rests g c₂ :=
      ⟨hc₂.task, by rw [hc₂.guest], by rw [hc₂.guest], hempty⟩
    have hall := hrun.trans (hmore.mono fun _ _ hsent => hsent lastChannel)
    obtain ⟨turns', hturns'⟩ := round_run rest g s f n hlast hall
    refine ⟨tr₁ ++ tr₂, c₂, hmore, hrests, fun ch => ?_⟩
    have hnone : traffic (fun o _ => outboxIn ch o) (tr₁ ++ tr₂) = [] :=
      traffic_of_not_sends fun l hl => hmore.forall_label (fun _ _ hsent => hsent ch) l hl
    rw [everything_back hturns' hrests ch, traffic_append, hnone, List.append_nil]

end echo

/-- Three bytes that are queued for channel 1 come back to it. -/
theorem echo_three : ∃ (tr : List (SysLabel Unit))
    (c : SysConfig Unit Unit (Guest × (Tid → Peer))),
    Run (@system Unit Unit (Guest × (Tid → Peer)) noDisk asciiTables (withEcho scripted 0))
      (fun _ l => ¬ Sends lastChannel l)
      (Config.initial (World.initial threeQueued () (Guest.new, fun _ => .sending []))) tr c ∧
    Rests 0 c ∧ traffic (fun o _ => inboxIn 1 o) tr = [0x41, 0x42, 0x43] := by
  let c₀ : SysConfig Unit Unit (Guest × (Tid → Peer)) :=
    Config.initial (World.initial threeQueued () (Guest.new, fun _ => .sending []))
  have hself : Run (@system _ _ _ noDisk asciiTables (withEcho scripted 0))
      (fun _ l => ¬ Sends lastChannel l) c₀ [] c₀ := Run.refl c₀
  have hmay : (@system _ _ _ noDisk asciiTables (withEcho scripted 0)).mayStart (.guest 0)
    c₀.world := Or.inl rfl
  have hstart := hself.silent (Step.start (.guest 0) rfl hmay)
  obtain ⟨-, hecho⟩ := @echo Unit Unit (Tid → Peer) noDisk asciiTables scripted 0
    threeQueued () (fun _ => .sending []) rfl _ _ hstart
  obtain ⟨tr, c, hrun, hrests, hback⟩ := hecho (.inl ⟨rfl, rfl, rfl, rfl⟩)
  refine ⟨_, c, hstart.trans (hrun.mono fun _ _ hsent => hsent lastChannel), hrests, ?_⟩
  exact hback 1

end Echo

end DriveWire
