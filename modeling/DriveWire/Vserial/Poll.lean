import DriveWire.Vserial.Fifo
import DriveWire.Vserial.Serread

/-! # The Poll Loop

    A guest that polls: it sends SERREAD, takes the byte of a byte reply,
    answers a count with SERREADM and takes that many bytes.  The guest is
    the peer of one guest session; hosts queue bytes for it at any moment,
    also between the reply to SERREAD and the SERREADM. -/

namespace DriveWire

open Async Server

variable {D F N : Type}

/-! ## Section 1: The guest -/

/-- Where the loop is: about to poll, waiting for the two reply bytes, or for
    the bytes of a channel. -/
inductive PollPhase where
  | ready : PollPhase
  | reply : PollPhase
  | burst : UInt8 → UInt8 → PollPhase

/-- The guest, with the bytes on the wire in both directions. -/
structure Poller where
  toServer   : List UInt8
  fromServer : List UInt8
  phase      : PollPhase
  /-- The bytes taken, by channel. -/
  taken      : UInt8 → List UInt8
  /-- The replies to SERREAD, in order. -/
  replies    : List (UInt8 × UInt8)

namespace Poller

def new : Poller := ⟨[], [], .ready, fun _ => [], []⟩

/-- The number of SERREADs that were sent. -/
def asked (p : Poller) : Nat :=
  match p.phase with
  | .reply => p.replies.length + 1
  | _ => p.replies.length

/-- The bytes are for this channel. -/
def take (p : Poller) (channel : UInt8) (bytes : List UInt8) : UInt8 → List UInt8 :=
  Function.update p.taken channel (p.taken channel ++ bytes)

/-- What the loop does with a reply. -/
def handle (p : Poller) (code second : UInt8) (rest : List UInt8) : Poller :=
  match decodeSerread code second with
  | .byte channel byte =>
    { p with fromServer := rest, phase := .ready, taken := p.take channel [byte],
             replies := p.replies ++ [(code, second)] }
  | .burst channel count =>
    { p with toServer := p.toServer ++ [0x63, channel, count], fromServer := rest,
             phase := .burst channel count, replies := p.replies ++ [(code, second)] }
  | _ => { p with fromServer := rest, phase := .ready, replies := p.replies ++ [(code, second)] }

/-- The next step of the loop, if it does not wait for the server. -/
def step (p : Poller) : Option Poller :=
  match p.phase with
  | .ready => some { p with toServer := p.toServer ++ [0x43], phase := .reply }
  | .reply =>
    match p.fromServer with
    | code :: second :: rest => some (p.handle code second rest)
    | _ => none
  | .burst channel count =>
    if count.toNat ≤ p.fromServer.length then
      some { p with fromServer := p.fromServer.drop count.toNat, phase := .ready,
                    taken := p.take channel (p.fromServer.take count.toNat) }
    else none

/-- The transport, from the server's side. -/
def answer : (i : Io) → Poller → Poll i.Res × Poller
  | .readExact n, p =>
    if h : n ≤ p.toServer.length then
      (.ready (.ok (takeVector n p.toServer h)), { p with toServer := p.toServer.drop n })
    else (.pending, p)
  | .writeAll bs, p => (.ready (.ok ()), { p with fromServer := p.fromServer ++ bs })
  | .read _, p => (.pending, p)
  | .nextLine, p => (.pending, p)
  | .nextCall, p => (.pending, p)

end Poller

/-- One guest session, number `g`, whose peer is the poll loop.  All other
    peers, the hosts among them, are as in `rest`. -/
def withPoller (rest : Env D F N) (g : Nat) : Env D F (Poller × N) where
  net := fun t i n r n' =>
    (t = .guest g ∧ r = (n.1.answer i).1 ∧ n' = ((n.1.answer i).2, n.2)) ∨
      (t ≠ .guest g ∧ n'.1 = n.1 ∧ rest.net t i n.2 r n'.2)
  sys := rest.sys
  connect := fun t n => (∃ k, t = .guest k ∧ k = g) ∨ ((∀ k, t ≠ .guest k) ∧ rest.connect t n.2)
  netStep := fun n n' =>
    (n.1.step = some n'.1 ∧ n'.2 = n.2) ∨ (n'.1 = n.1 ∧ rest.netStep n.2 n'.2)

/-! ## Section 2: The session of the guest -/

/-- How far the guest session is with a poll.  `other` are the tasks that take
    nothing out of the outbox. -/
inductive Turn where
  | off      : Turn
  | opcode   : Turn
  | serread  : Turn
  | reply    : Scan → Turn
  | serreadm : Turn
  | pop      : UInt8 → UInt8 → Turn
  | data     : List UInt8 → Turn
  | other    : Turn

/-- Effects that take nothing out of the outbox. -/
def Leaving : Eff D → Prop
  | .op .outboxScan | .op (.outboxPop _ _) => False
  | _ => True

def Turn.Allows : Turn → Eff D → Prop
  | .opcode, .io (.readExact n) => n = 1
  | .opcode, .unlock _ => True
  | .serread, .lock l _ => l = .vserialOutbox
  | .serread, .op .outboxScan => True
  | .reply found, .io (.writeAll bs) => bs = serreadReply found
  | .serreadm, .io (.readExact n) => n = 2
  | .pop _ _, .lock l _ => l = .vserialOutbox
  | .pop channel count, .op (.outboxPop c n) => c.val = channel.toNat ∧ n = count.toNat
  | .data _, .unlock _ => True
  | .data bytes, .io (.writeAll bs) => bs = bytes
  | .other, e => Leaving e
  | _, _ => False

/-- The guest sends SERREAD and SERREADM only, and its connection stays. -/
def Turn.Admits : Turn → (e : Eff D) → e.Res → Prop
  | .opcode, .io (.readExact _), r => ∃ v, r = .ok v ∧ (v.toList = [0x43] ∨ v.toList = [0x63])
  | .serreadm, .io (.readExact _), r =>
    ∃ v, r = .ok v ∧ (v.toList.getD 0 0).toNat < vserialChannels
  | .reply _, .io (.writeAll _), r => r = .ok ()
  | .data _, .io (.writeAll _), r => r = .ok ()
  | _, _, _ => True

def Turn.next : Turn → (e : Eff D) → e.Res → Turn
  | .opcode, .io (.readExact _), .ok v => if v.toList = [0x43] then .serread else .serreadm
  | .serread, .op .outboxScan, found => .reply found
  | .reply _, .io (.writeAll _), _ => .opcode
  | .serreadm, .io (.readExact _), .ok v => .pop (v.toList.getD 0 0) (v.toList.getD 1 0)
  | .pop _ _, .op (.outboxPop _ _), popped => .data (popped.toList.map (·.getD 0))
  | .data _, .io (.writeAll _), _ => .opcode
  | s, _, _ => s

def polling : Protocol (Eff D) Eff.Res Turn where
  allows := Turn.Allows
  admits := Turn.Admits
  next   := Turn.next

/-- Where a task starts an iteration of its loop. -/
def Turn.enter : Tid → Turn
  | .guest _ => .opcode
  | _ => .other

/-- A polling guest session never ends. -/
def Turn.Leaves : Tid → Flow Exit → Turn → Prop
  | .guest _, .again, s => s = .opcode
  | .guest _, .done _, _ => False
  | _, _, s => s = .other

theorem other_next (e : Eff D) (r : e.Res) : Turn.next .other e r = .other := by
  unfold Turn.next
  split <;> simp_all

theorem byte0_eq {v : Vector UInt8 1} {b : UInt8} (h : v.toList = [b]) : byte0 v = b := by
  rw [toList_one] at h
  injection h

theorem guest_polling (n : Nat) :
    (guestOnce (D := D)).Obeys polling .opcode (Turn.Leaves (.guest n)) := by
  rw [guestOnce, runOnce_eq]
  refine ⟨rfl, fun r hr => ?_⟩
  obtain ⟨v, rfl, hv⟩ := hr
  -- the loop sends two opcodes only
  rcases hv with hserread | hserreadm
  · have hnext : (polling (D := D)).next .opcode (.io (.readExact 1)) (.ok v) = .serread :=
      if_pos hserread
    rw [hnext]
    dsimp only
    rw [byte0_eq hserread]
    show ((handleSerread (D := D)).run >>= fun r => Prog.ret (flowOf r)).Obeys _ _ _
    rw [handleSerread_eq]
    refine ⟨rfl, fun _ _ => ⟨trivial, fun found _ => ⟨rfl, fun r hr => ?_⟩⟩⟩
    refine ⟨trivial, fun _ _ => ?_⟩
    cases hr
    rfl
  · have hnext : (polling (D := D)).next .opcode (.io (.readExact 1)) (.ok v) = .serreadm := by
      refine if_neg ?_
      rw [hserreadm]
      decide
    rw [hnext]
    dsimp only
    rw [byte0_eq hserreadm]
    show ((handleSerreadm (D := D)).run >>= fun r => Prog.ret (flowOf r)).Obeys _ _ _
    rw [handleSerreadm, run_readExact_bind]
    refine ⟨rfl, fun r hr => ?_⟩
    obtain ⟨p, rfl, hp⟩ := hr
    have hdata : p.toList = [byte0 p, byte1 p] := toList_two p
    have hturn : (polling (D := D)).next .serreadm (.io (.readExact 2)) (.ok p) =
        .pop (byte0 p) (byte1 p) := by
      show Turn.pop (p.toList.getD 0 0) (p.toList.getD 1 0) = _
      rw [hdata]
      rfl
    have hlt : (byte0 p).toNat < vserialChannels := by
      rwa [hdata] at hp
    rw [hturn]
    dsimp only
    rw [run_call_bind, popPadded, dif_pos hlt]
    refine ⟨rfl, fun _ _ => ⟨⟨rfl, rfl⟩, fun popped _ => ⟨trivial, fun _ _ => ?_⟩⟩⟩
    refine ⟨rfl, fun r hr => ?_⟩
    cases hr
    rfl

theorem other_polling {t : Tid} {c : Code D (Flow Exit)} (h : c.Only Leaving)
    (ht : ∀ n, t ≠ .guest n) : c.Obeys polling .other (Turn.Leaves t) := by
  have hother : c.Obeys polling .other (fun _ s => s = .other) :=
    h.obeys fun e he => ⟨he, fun r _ => other_next e r⟩
  refine hother.mono fun a s hs => ?_
  cases t with
  | guest n => exact absurd rfl (ht n)
  | _ => exact hs

theorem HostEff.leaving {e : Eff D} (h : HostEff e) : Leaving e := by
  cases e with
  | op o =>
    cases o with
    | outboxScan => cases h
    | outboxPop c n => cases h
    | _ => trivial
  | _ => trivial

theorem OutboundEff.leaving {channel : UInt8} {e : Eff D} (h : OutboundEff channel e) :
    Leaving e := by
  cases e with
  | notified c => trivial
  | _ => exact HostEff.leaving (TapEff.hostEff h)

theorem attachSession_leaving (n : Nat) : (attachSession n : Code D _).Only Leaving := by
  refine ⟨trivial, fun r _ => ?_⟩
  cases r with
  | error e => trivial
  | ok v => exact ⟨trivial, fun _ _ => ⟨trivial, fun _ _ => ⟨trivial, fun _ _ => trivial⟩⟩⟩

theorem body_polling [VDisk D] [UnicodeTables] (t : Tid) :
    (body t : Code D _).Obeys polling (Turn.enter t) (Turn.Leaves t) := by
  cases t with
  | guest n => exact guest_polling n
  | attach n => exact other_polling (attachSession_leaving n) fun _ h => by cases h
  | attachIn n channel =>
    exact other_polling ((inboundOnce_host channel).mono fun _ => HostEff.leaving)
      fun _ h => by cases h
  | attachOut n channel =>
    exact other_polling ((outboundOnce_only channel).mono fun _ => OutboundEff.leaving)
      fun _ h => by cases h
  | control n =>
    exact other_polling (controlOnce_host.mono fun _ => HostEff.leaving) fun _ h => by cases h
  | api n => exact other_polling (apiCall_host.mono fun _ => HostEff.leaving) fun _ h => by cases h

/-! ## Section 3: A poll in progress -/

/-- How the guest writes a channel. -/
def idOf (c : Channel) : UInt8 := UInt8.ofNat c.val

theorem idOf_inj {c c' : Channel} (h : idOf c = idOf c') : c = c' := by
  have hinj : ∀ c c' : Channel, idOf c = idOf c' → c = c' := by decide
  exact hinj c c' h

theorem idOf_toNat (c : Channel) : (idOf c).toNat = c.val := by
  have hall : ∀ c : Channel, (idOf c).toNat = c.val := by decide
  exact hall c

/-- The number of bytes that are queued for the guest. -/
def total (out : Channel → List UInt8) : Nat := ∑ c, (out c).length

/-- What a reply tells the guest is true, and stays so. -/
def Promise (out : Channel → List UInt8) : Scan → Prop
  | .empty => True
  | .byte c _ => c ≠ lastChannel
  | .burst c n => c ≠ lastChannel ∧ 3 ≤ n.toNat ∧ n.toNat ≤ (out c).length

/-- What is under way: bytes that are in no queue any more and not taken yet,
    the reply that the guest has not read, and whether a count was promised
    that is still in its queue. -/
structure Flight where
  bytes   : Channel → List UInt8
  replies : List (UInt8 × UInt8)
  owed    : Nat

def Scan.owed : Scan → Nat
  | .burst _ _ => 1
  | _ => 0

namespace Flight

def none : Flight := ⟨fun _ => [], [], 0⟩

def ofScan (found : Scan) : Flight :=
  ⟨fun c => found.taken c, [(replyCode found, replySecond found)], found.owed⟩

def promised : Flight := ⟨fun _ => [], [], 1⟩

def data (c : Channel) (bytes : List UInt8) : Flight :=
  ⟨fun c' => if c' = c then bytes else [], [], 0⟩

end Flight

/-- How the guest, its session and the outbox fit together in the course of a
    poll. -/
inductive Agree (out : Channel → List UInt8) : Turn → Poller → Flight → Prop where
  | ready : ∀ turn taken replies, turn = .opcode ∨ turn = .off →
      Agree out turn ⟨[], [], .ready, taken, replies⟩ .none
  | asked : ∀ turn taken replies, turn = .opcode ∨ turn = .off →
      Agree out turn ⟨[0x43], [], .reply, taken, replies⟩ .none
  | serread : ∀ taken replies, Agree out .serread ⟨[], [], .reply, taken, replies⟩ .none
  | scanned : ∀ found taken replies, Promise out found →
      Agree out (.reply found) ⟨[], [], .reply, taken, replies⟩ (.ofScan found)
  | replied : ∀ found taken replies, Promise out found →
      Agree out .opcode ⟨[], serreadReply found, .reply, taken, replies⟩ (.ofScan found)
  | requested : ∀ c n taken replies, Promise out (.burst c n) →
      Agree out .opcode ⟨[0x63, idOf c, n], [], .burst (idOf c) n, taken, replies⟩ .promised
  | header : ∀ c n taken replies, Promise out (.burst c n) →
      Agree out .serreadm ⟨[idOf c, n], [], .burst (idOf c) n, taken, replies⟩ .promised
  | pop : ∀ c n taken replies, Promise out (.burst c n) →
      Agree out (.pop (idOf c) n) ⟨[], [], .burst (idOf c) n, taken, replies⟩ .promised
  | data : ∀ c n bytes taken replies, bytes.length = n.toNat → 3 ≤ n.toNat →
      Agree out (.data bytes) ⟨[], [], .burst (idOf c) n, taken, replies⟩ (.data c bytes)
  | sent : ∀ c n bytes taken replies, bytes.length = n.toNat → 3 ≤ n.toNat →
      Agree out .opcode ⟨[], bytes, .burst (idOf c) n, taken, replies⟩ (.data c bytes)

/-- The session of the guest does not do what other tasks do. -/
theorem Agree.not_other {out : Channel → List UInt8} {p : Poller} {fl : Flight}
    (h : Agree out .other p fl) : False := by
  cases h with
  | ready _ _ _ h => rcases h with h | h <;> cases h
  | asked _ _ _ h => rcases h with h | h <;> cases h

theorem Promise.mono {out out' : Channel → List UInt8} {found : Scan} (h : Promise out found)
    (hlen : ∀ c, (out c).length ≤ (out' c).length) : Promise out' found := by
  cases found with
  | empty => trivial
  | byte c b => exact h
  | burst c n => exact ⟨h.1, h.2.1, h.2.2.trans (hlen c)⟩

/-- Hosts that queue more bytes do not disturb a poll. -/
theorem Agree.mono {out out' : Channel → List UInt8} {turn : Turn} {p : Poller} {fl : Flight}
    (h : Agree out turn p fl) (hlen : ∀ c, (out c).length ≤ (out' c).length) :
    Agree out' turn p fl := by
  cases h with
  | ready turn taken replies h => exact .ready _ _ _ h
  | asked turn taken replies h => exact .asked _ _ _ h
  | serread taken replies => exact .serread _ _
  | scanned found taken replies h => exact .scanned _ _ _ (h.mono hlen)
  | replied found taken replies h => exact .replied _ _ _ (h.mono hlen)
  | requested c n taken replies h => exact .requested _ _ _ _ (h.mono hlen)
  | header c n taken replies h => exact .header _ _ _ _ (h.mono hlen)
  | pop c n taken replies h => exact .pop _ _ _ _ (h.mono hlen)
  | data c n bytes taken replies h h' => exact .data _ _ _ _ _ h h'
  | sent c n bytes taken replies h h' => exact .sent _ _ _ _ _ h h'

/-- The replies that were given to the guest, read or not. -/
def answers (p : Poller) (fl : Flight) : List (UInt8 × UInt8) := p.replies ++ fl.replies

/-- What a step does to the number of queued bytes when it answers a poll, or
    does not. -/
inductive Counts (out out' : Channel → List UInt8) (p p' : Poller) (fl fl' : Flight) : Prop where
  | same : answers p' fl' = answers p fl → total out' + fl.owed ≤ total out + fl'.owed →
      Counts out out' p p' fl fl'
  | found : ∀ r, r ≠ (0x00, 0x00) → answers p' fl' = answers p fl ++ [r] →
      total out' + fl.owed + 1 ≤ total out + fl'.owed → Counts out out' p p' fl fl'
  | empty : answers p' fl' = answers p fl ++ [(0x00, 0x00)] → (∀ c, out c = []) →
      (∀ c, out' c = []) → fl.owed = 0 → Counts out out' p p' fl fl'

/-- What one step of the guest or of its session does. -/
structure Moves (out out' : Channel → List UInt8) (p p' : Poller) (fl fl' : Flight) : Prop where
  /-- Nothing is lost, doubled or reordered. -/
  stream : ∀ c, p'.taken (idOf c) ++ fl'.bytes c ++ out' c = p.taken (idOf c) ++ fl.bytes c ++ out c
  shrink : ∀ c, out c = [] → out' c = []
  counts : Counts out out' p p' fl fl'

theorem Moves.refl (out : Channel → List UInt8) (p : Poller) (fl : Flight) :
    Moves out out p p fl fl :=
  ⟨fun _ => rfl, fun _ h => h, .same rfl le_rfl⟩

/-- A step that moves bytes or a reply along. -/
theorem Moves.pass {out : Channel → List UInt8} {p p' : Poller} {fl fl' : Flight}
    (hbytes : ∀ c, p'.taken (idOf c) ++ fl'.bytes c = p.taken (idOf c) ++ fl.bytes c)
    (hanswers : answers p' fl' = answers p fl) (howed : fl.owed ≤ fl'.owed) :
    Moves out out p p' fl fl' := by
  refine ⟨fun c => by rw [hbytes], fun _ h => h, .same hanswers ?_⟩
  omega

/-! ## Section 4: One step -/

theorem handle_byte {c : Channel} (hc : c ≠ lastChannel) (p : Poller) (b : UInt8)
    (rest : List UInt8) : p.handle (replyCode (.byte c b)) b rest =
      { p with fromServer := rest, phase := .ready, taken := p.take (idOf c) [b],
               replies := p.replies ++ [(replyCode (.byte c b), b)] } := by
  rw [Poller.handle, decode_byte hc b]
  rfl

theorem handle_burst {c : Channel} (hc : c ≠ lastChannel) (p : Poller) (n : UInt8)
    (rest : List UInt8) : p.handle (replyCode (.burst c n)) n rest =
      { p with toServer := p.toServer ++ [0x63, idOf c, n], fromServer := rest,
               phase := .burst (idOf c) n,
               replies := p.replies ++ [(replyCode (.burst c n), n)] } := by
  rw [Poller.handle, decode_burst hc n]
  rfl

/-- The bytes that the guest takes were under way to it. -/
theorem take_stream (p : Poller) (c c' : Channel) (bytes : List UInt8) :
    p.take (idOf c) bytes (idOf c') = p.taken (idOf c') ++ if c' = c then bytes else [] := by
  by_cases hc : c' = c
  · subst hc
    rw [Poller.take, Function.update_self, if_pos rfl]
  · have hne : idOf c' ≠ idOf c := fun h => hc (idOf_inj h)
    rw [Poller.take, Function.update_of_ne hne, if_neg hc, List.append_nil]

theorem step_reply (found : Scan) (taken : UInt8 → List UInt8) (replies : List (UInt8 × UInt8)) :
    Poller.step ⟨[], serreadReply found, .reply, taken, replies⟩ =
      some (Poller.handle ⟨[], serreadReply found, .reply, taken, replies⟩
        (replyCode found) (replySecond found) []) := by
  cases found <;> rfl

/-- The guest waits for the bytes that it has asked for. -/
theorem step_waits {n : UInt8} (h : 3 ≤ n.toNat) (toServer : List UInt8) (c : UInt8)
    (taken : UInt8 → List UInt8) (replies : List (UInt8 × UInt8)) :
    Poller.step ⟨toServer, [], .burst c n, taken, replies⟩ = none := by
  refine if_neg ?_
  rw [List.length_nil]
  omega

/-- The guest takes the bytes that it has asked for. -/
theorem step_takes {n : UInt8} {bytes : List UInt8} (h : bytes.length = n.toNat) (c : UInt8)
    (taken : UInt8 → List UInt8) (replies : List (UInt8 × UInt8)) :
    Poller.step ⟨[], bytes, .burst c n, taken, replies⟩ =
      some ⟨[], [], .ready, Poller.take ⟨[], [], .ready, taken, replies⟩ c bytes, replies⟩ := by
  have hready : Poller.step ⟨[], bytes, .burst c n, taken, replies⟩ =
      some ⟨[], bytes.drop n.toNat, .ready,
        Poller.take ⟨[], [], .ready, taken, replies⟩ c (bytes.take n.toNat), replies⟩ :=
    if_pos h.ge
  rw [hready, ← h, List.drop_length, List.take_length]

/-- A step of the guest. -/
theorem poller_moves {out : Channel → List UInt8} {turn : Turn} {p p' : Poller} {fl : Flight}
    (h : Agree out turn p fl) (hstep : p.step = some p') :
    ∃ fl', Agree out turn p' fl' ∧ Moves out out p p' fl fl' := by
  cases h with
  | ready turn taken replies hturn =>
    cases hstep
    exact ⟨.none, .asked _ _ _ hturn, .pass (fun _ => rfl) rfl le_rfl⟩
  | asked => cases hstep
  | serread => cases hstep
  | scanned => cases hstep
  | replied found taken replies hpromise =>
    -- an inline byte is taken; a count makes the guest ask for as many
    rw [step_reply] at hstep
    cases found with
    | empty =>
      cases hstep
      exact ⟨.none, .ready _ _ _ (.inl rfl), .pass (fun _ => rfl) (List.append_nil _) le_rfl⟩
    | byte c b =>
      rw [replySecond, handle_byte hpromise] at hstep
      cases hstep
      refine ⟨.none, .ready _ _ _ (.inl rfl), .pass (fun c' => ?_) (List.append_nil _) le_rfl⟩
      show Poller.take _ (idOf c) [b] (idOf c') ++ [] =
        taken (idOf c') ++ if c = c' then [b] else []
      rw [take_stream, List.append_nil]
      simp only [eq_comm]
    | burst c n =>
      rw [replySecond, handle_burst hpromise.1] at hstep
      cases hstep
      exact ⟨.promised, .requested _ _ _ _ hpromise,
        .pass (fun _ => rfl) (List.append_nil _) le_rfl⟩
  | requested c n taken replies hpromise =>
    rw [step_waits hpromise.2.1] at hstep
    cases hstep
  | header c n taken replies hpromise =>
    rw [step_waits hpromise.2.1] at hstep
    cases hstep
  | pop c n taken replies hpromise =>
    rw [step_waits hpromise.2.1] at hstep
    cases hstep
  | data c n bytes taken replies hlen hthree =>
    rw [step_waits hthree] at hstep
    cases hstep
  | sent c n bytes taken replies hlen hthree =>
    rw [step_takes hlen] at hstep
    cases hstep
    refine ⟨.none, .ready _ _ _ (.inl rfl), .pass (fun c' => ?_) rfl le_rfl⟩
    show Poller.take _ (idOf c) bytes (idOf c') ++ [] = _
    rw [take_stream, List.append_nil]
    rfl

theorem total_update (out : Channel → List UInt8) (c : Channel) (q : List UInt8) :
    total (Function.update out c q) + (out c).length = total out + q.length := by
  have hnew := Finset.add_sum_erase Finset.univ
    (fun c' => (Function.update out c q c').length) (Finset.mem_univ c)
  have hold := Finset.add_sum_erase Finset.univ (fun c' => (out c').length) (Finset.mem_univ c)
  have hrest : ∑ c' ∈ Finset.univ.erase c, (Function.update out c q c').length =
      ∑ c' ∈ Finset.univ.erase c, (out c').length := by
    refine Finset.sum_congr rfl fun c' hc' => ?_
    rw [Function.update_of_ne (Finset.ne_of_mem_erase hc')]
  simp only [Function.update_self] at hnew
  unfold total
  omega

theorem total_empty {out : Channel → List UInt8} (h : ∀ c, out c = []) : total out = 0 := by
  simp [total, h]

/-- The scan of SERREAD moves the byte that it returns, and nothing else. -/
theorem scan_moves {out : Channel → List UInt8} (hlast : out lastChannel = [])
    (taken : UInt8 → List UInt8) (replies : List (UInt8 × UInt8)) {found : Scan}
    {out' : Channel → List UInt8}
    (hscan : scanOutbox (List.finRange vserialChannels) out = (found, out')) :
    Promise out' found ∧ Moves out out' ⟨[], [], .reply, taken, replies⟩
      ⟨[], [], .reply, taken, replies⟩ .none (.ofScan found) := by
  obtain ⟨hfound, hafter⟩ := scanOutbox_found out
  rw [hscan] at hfound hafter
  have hne : ∀ c, Lowest out c → c ≠ lastChannel := by
    rintro c hlow rfl
    exact hlow.1 hlast
  have happend : ∀ r : UInt8 × UInt8, replies ++ [r] = replies ++ [] ++ [r] := fun r => by
    rw [List.append_nil]
  cases found with
  | empty =>
    have hout : out' = out := hafter
    rw [hout]
    exact ⟨trivial, fun _ => rfl, fun _ h => h, .empty (happend _) hfound hfound rfl⟩
  | byte c b =>
    obtain ⟨hlow, -, hhead⟩ := hfound
    have hc := List.cons_head?_tail hhead
    have hlen : (out c).length = (out c).tail.length + 1 := congrArg List.length hc.symm
    have htotal := total_update out c (out c).tail
    have hout : out' = afterScan out (.byte c b) := hafter
    rw [hout]
    -- the code of a channel below 15 is not taken for the empty reply
    have hcode : (replyCode (.byte c b), b) ≠ (0x00, 0x00) := fun heq =>
      (byteCode_range c (hne c hlow)).1 (congrArg Prod.fst heq)
    refine ⟨hne c hlow, fun c' => ?_, fun c' hc' => ?_, .found _ hcode (happend _) ?_⟩
    · show taken (idOf c') ++ (if c = c' then [b] else []) ++ afterScan out (.byte c b) c' = _
      by_cases hcc : c = c'
      · subst hcc
        rw [if_pos rfl, afterScan, Function.update_self, List.append_assoc,
          List.singleton_append, hc]
        simp [Flight.none]
      · rw [if_neg hcc, afterScan, Function.update_of_ne (Ne.symm hcc)]
        rfl
    · by_cases hcc : c = c'
      · subst hcc
        exact absurd hc' hlow.1
      · rwa [afterScan, Function.update_of_ne (Ne.symm hcc)]
    · have hbefore : Flight.none.owed = 0 := rfl
      have hbehind : (Flight.ofScan (.byte c b)).owed = 0 := rfl
      rw [hbefore, hbehind, afterScan]
      omega
  | burst c n =>
    obtain ⟨hlow, hlen, hn⟩ := hfound
    -- a count of at most 255, of bytes that stay where they are
    have htoNat : n.toNat = min (out c).length 255 := by
      rw [hn, UInt8.toNat_ofNat']
      omega
    have hout : out' = out := hafter
    rw [hout]
    have hcode : (replyCode (.burst c n), n) ≠ (0x00, 0x00) := fun heq =>
      (burstCode_range c (hne c hlow)).1 (congrArg Prod.fst heq)
    refine ⟨⟨hne c hlow, by omega, ?_⟩, fun _ => rfl, fun _ h => h, .found _ hcode (happend _) ?_⟩
    · show n.toNat ≤ (out c).length
      omega
    · have hbefore : Flight.none.owed = 0 := rfl
      have hbehind : (Flight.ofScan (.burst c n)).owed = 1 := rfl
      rw [hbefore, hbehind]

/-- The pops of SERREADM find all the bytes that were promised. -/
theorem pop_moves {out : Channel → List UInt8} {c : Channel} {n : UInt8}
    (hpromise : Promise out (.burst c n)) (taken : UInt8 → List UInt8)
    (replies : List (UInt8 × UInt8)) :
    (popFronts n.toNat (out c)).1.toList.map (·.getD 0) = (out c).take n.toNat ∧
      none ∉ (popFronts n.toNat (out c)).1.toList ∧
      Moves out (Function.update out c ((out c).drop n.toNat))
        ⟨[], [], .burst (idOf c) n, taken, replies⟩ ⟨[], [], .burst (idOf c) n, taken, replies⟩
        .promised (.data c ((out c).take n.toNat)) := by
  obtain ⟨-, hthree, hlen⟩ := hpromise
  -- the queue has only grown since the count was given, so nothing is padded
  have hpad : n.toNat - (out c).length = 0 := by omega
  refine ⟨?_, ?_, fun c' => ?_, fun c' hc' => ?_, .same rfl ?_⟩
  · rw [popFronts_padded, hpad, List.replicate_zero, List.append_nil]
  · intro hnone
    rw [popFronts_toList, hpad, List.replicate_zero, List.append_nil] at hnone
    obtain ⟨b, -, hb⟩ := List.mem_map.mp hnone
    cases hb
  · show taken (idOf c') ++ (if c' = c then (out c).take n.toNat else []) ++ _ = _
    by_cases hcc : c' = c
    · subst hcc
      rw [if_pos rfl, Function.update_self, List.append_assoc, List.take_append_drop]
      simp [Flight.promised]
    · rw [if_neg hcc, Function.update_of_ne hcc]
      rfl
  · by_cases hcc : c' = c
    · subst hcc
      rw [Function.update_self, hc', List.drop_nil]
    · rwa [Function.update_of_ne hcc]
  · have htotal := total_update out c ((out c).drop n.toNat)
    rw [List.length_drop] at htotal
    have hbefore : Flight.promised.owed = 1 := rfl
    have hbehind : (Flight.data c ((out c).take n.toNat)).owed = 0 := rfl
    rw [hbefore, hbehind]
    omega

section transport

variable {out : Channel → List UInt8} {p p' : Poller} {fl : Flight}

theorem opcode_next {n : Nat} (v : Vector UInt8 n) :
    Turn.next (D := D) .opcode (.io (.readExact n)) (.ok v) =
      if v.toList = [0x43] then .serread else .serreadm := rfl

/-- The opcode that the session reads is one of the two that the loop sends. -/
theorem opcode_moves (h : Agree out .opcode p fl) {r : Except IoError (Vector UInt8 1)}
    (hans : p.answer (.readExact 1) = (.ready r, p')) :
    Turn.Admits (D := D) .opcode (.io (.readExact 1)) r ∧
      ∃ fl', Agree out (Turn.next (D := D) .opcode (.io (.readExact 1)) r) p' fl' ∧
        Moves out out p p' fl fl' := by
  -- the states of the guest in which something is on the wire
  cases h with
  | ready =>
    rw [Poller.answer, dif_neg (by simp)] at hans
    cases hans
  | asked turn taken replies =>
    rw [Poller.answer, dif_pos (by simp)] at hans
    cases hans
    refine ⟨⟨_, rfl, .inl rfl⟩, .none, ?_, .pass (fun _ => rfl) rfl le_rfl⟩
    have hserread : (takeVector 1 [0x43] (by simp)).toList = [(0x43 : UInt8)] := rfl
    rw [opcode_next, if_pos hserread]
    exact .serread _ _
  | replied =>
    rw [Poller.answer, dif_neg (by simp)] at hans
    cases hans
  | requested c n taken replies hpromise =>
    rw [Poller.answer, dif_pos (by simp)] at hans
    cases hans
    refine ⟨⟨_, rfl, .inr rfl⟩, .promised, ?_, .pass (fun _ => rfl) rfl le_rfl⟩
    have hserreadm : (takeVector 1 [0x63, idOf c, n] (by simp)).toList ≠ [0x43] :=
      fun heq => absurd (List.head_eq_of_cons_eq heq) (by decide)
    rw [opcode_next, if_neg hserreadm]
    exact .header _ _ _ _ hpromise
  | sent =>
    rw [Poller.answer, dif_neg (by simp)] at hans
    cases hans

theorem header_moves (h : Agree out .serreadm p fl) {r : Except IoError (Vector UInt8 2)}
    (hans : p.answer (.readExact 2) = (.ready r, p')) :
    Turn.Admits (D := D) .serreadm (.io (.readExact 2)) r ∧
      ∃ fl', Agree out (Turn.next (D := D) .serreadm (.io (.readExact 2)) r) p' fl' ∧
        Moves out out p p' fl fl' := by
  cases h with
  | ready _ _ _ h => rcases h with h | h <;> cases h
  | asked _ _ _ h => rcases h with h | h <;> cases h
  | header c n taken replies hpromise =>
    rw [Poller.answer, dif_pos (by simp)] at hans
    cases hans
    refine ⟨⟨_, rfl, ?_⟩, .promised, .pop _ _ _ _ hpromise, .pass (fun _ => rfl) rfl le_rfl⟩
    show (idOf c).toNat < vserialChannels
    rw [idOf_toNat]
    exact c.isLt

theorem reply_moves {found : Scan} (h : Agree out (.reply found) p fl)
    (hans : p' = { p with fromServer := p.fromServer ++ serreadReply found }) :
    ∃ fl', Agree out .opcode p' fl' ∧ Moves out out p p' fl fl' := by
  cases h with
  | ready _ _ _ h => rcases h with h | h <;> cases h
  | asked _ _ _ h => rcases h with h | h <;> cases h
  | scanned _ _ _ hpromise =>
    subst hans
    exact ⟨_, .replied _ _ _ hpromise, .pass (fun _ => rfl) rfl le_rfl⟩

theorem data_moves {bytes : List UInt8} (h : Agree out (.data bytes) p fl)
    (hans : p' = { p with fromServer := p.fromServer ++ bytes }) :
    ∃ fl', Agree out .opcode p' fl' ∧ Moves out out p p' fl fl' := by
  cases h with
  | ready _ _ _ h => rcases h with h | h <;> cases h
  | asked _ _ _ h => rcases h with h | h <;> cases h
  | data c n _ taken replies hlen hthree =>
    subst hans
    exact ⟨_, .sent c n bytes taken replies hlen hthree, .pass (fun _ => rfl) rfl le_rfl⟩

/-- SERREAD scans the outboxes. -/
theorem serread_moves (h : Agree out .serread p fl) (hlast : out lastChannel = []) :
    ∃ fl', Agree (scanOutbox (List.finRange vserialChannels) out).2
        (.reply (scanOutbox (List.finRange vserialChannels) out).1) p fl' ∧
      Moves out (scanOutbox (List.finRange vserialChannels) out).2 p p fl fl' := by
  cases h with
  | ready _ _ _ h => rcases h with h | h <;> cases h
  | asked _ _ _ h => rcases h with h | h <;> cases h
  | serread taken replies =>
    obtain ⟨hpromise, hmoves⟩ := scan_moves hlast taken replies rfl
    exact ⟨_, .scanned _ _ _ hpromise, hmoves⟩

/-- SERREADM takes the bytes that were promised. -/
theorem serreadm_moves {channel count : UInt8} {c : Channel} (hc : c.val = channel.toNat)
    (h : Agree out (.pop channel count) p fl) :
    ∃ fl', Agree (Function.update out c (popFronts count.toNat (out c)).2)
        (.data ((popFronts count.toNat (out c)).1.toList.map (·.getD 0))) p fl' ∧
      Moves out (Function.update out c (popFronts count.toNat (out c)).2) p p fl fl' ∧
      none ∉ (popFronts count.toNat (out c)).1.toList := by
  cases h with
  | ready _ _ _ h => rcases h with h | h <;> cases h
  | asked _ _ _ h => rcases h with h | h <;> cases h
  | pop c' n taken replies hpromise =>
    have hcc : c = c' := Fin.ext (hc.trans (idOf_toNat c'))
    subst hcc
    obtain ⟨hbytes, hwhole, hmoves⟩ := pop_moves hpromise taken replies
    rw [← popFronts_snd] at hmoves
    have hlen : ((out c).take count.toNat).length = count.toNat := by
      rw [List.length_take]
      exact min_eq_left hpromise.2.2
    refine ⟨_, ?_, hmoves, hwhole⟩
    rw [hbytes]
    exact .data c count _ taken replies hlen hpromise.2.1

end transport

/-- A transport effect of the session is answered by the guest. -/
theorem poller_answers {rest : Env D F N} {g : Nat} {i : Io} {r : i.Res}
    {w w' : World D F (Poller × N)}
    (h : poll (withPoller rest g) (.guest g) (.io i) w (.ready r) w') :
    w.net.1.answer i = (.ready r, w'.net.1) ∧ w'.server = w.server := by
  obtain ⟨n, hnet, rfl⟩ := h
  rcases hnet with ⟨-, hr, hn⟩ | ⟨hne, -⟩
  · refine ⟨?_, rfl⟩
    show w.net.1.answer i = (.ready r, n.1)
    rw [hr, hn]
  · exact absurd rfl hne

/-- **A step of the session** keeps the agreement, and does what it should to
    the bytes on their way. -/
theorem session_moves {rest : Env D F N} {g : Nat} {e : Eff D} {r : e.Res}
    {w w' : World D F (Poller × N)} {turn : Turn} {fl : Flight}
    (h : Agree w.server.vserialOutbox turn w.net.1 fl)
    (hlast : w.server.vserialOutbox lastChannel = []) (hallow : turn.Allows e)
    (hpoll : poll (withPoller rest g) (.guest g) e w (.ready r) w') :
    turn.Admits e r ∧
      (∃ fl', Agree w'.server.vserialOutbox (turn.next e r) w'.net.1 fl' ∧
        Moves w.server.vserialOutbox w'.server.vserialOutbox w.net.1 w'.net.1 fl fl') ∧
      ∀ c n popped, (⟨e, r⟩ : Event (Eff.Res (D := D))) = ⟨.op (.outboxPop c n), popped⟩ →
        none ∉ popped.toList := by
  -- by what the session is about to do; the effect that it has come to is one of a few,
  -- and the guest answers where it is the peer
  cases turn with
  | off => cases e <;> cases hallow
  | other => exact h.not_other.elim
  | opcode =>
    cases e with
    | io i =>
      cases i with
      | readExact n =>
        cases (hallow : n = 1)
        obtain ⟨hans, hserver⟩ := poller_answers hpoll
        obtain ⟨hadm, hmoves⟩ := opcode_moves h hans
        rw [hserver]
        exact ⟨hadm, hmoves, fun _ _ _ heq => by cases heq⟩
      | _ => cases hallow
    | unlock l =>
      obtain ⟨-, rfl⟩ := hpoll
      exact ⟨trivial, ⟨fl, h, .refl _ _ _⟩, fun _ _ _ heq => by cases heq⟩
    | _ => cases hallow
  | serread =>
    cases e with
    | lock l m =>
      obtain ⟨hr, -⟩ | ⟨-, -, rfl⟩ := hpoll
      · cases hr
      · exact ⟨trivial, ⟨fl, h, .refl _ _ _⟩, fun _ _ _ heq => by cases heq⟩
    | op o =>
      cases o with
      | outboxScan =>
        obtain ⟨hr, rfl⟩ := hpoll
        cases hr
        exact ⟨trivial, serread_moves h hlast, fun _ _ _ heq => by cases heq⟩
      | _ => cases hallow
    | _ => cases hallow
  | reply found =>
    cases e with
    | io i =>
      cases i with
      | writeAll bs =>
        cases (hallow : bs = serreadReply found)
        obtain ⟨hans, hserver⟩ := poller_answers hpoll
        cases hr : r with
        | error x => rw [hr] at hans; cases hans
        | ok u =>
          have hp := (congrArg Prod.snd hans).symm
          rw [hserver]
          exact ⟨rfl, reply_moves h hp, fun _ _ _ heq => by cases heq⟩
      | _ => cases hallow
    | _ => cases hallow
  | serreadm =>
    cases e with
    | io i =>
      cases i with
      | readExact n =>
        cases (hallow : n = 2)
        obtain ⟨hans, hserver⟩ := poller_answers hpoll
        obtain ⟨hadm, hmoves⟩ := header_moves h hans
        rw [hserver]
        exact ⟨hadm, hmoves, fun _ _ _ heq => by cases heq⟩
      | _ => cases hallow
    | _ => cases hallow
  | pop channel count =>
    cases e with
    | lock l m =>
      obtain ⟨hr, -⟩ | ⟨-, -, rfl⟩ := hpoll
      · cases hr
      · exact ⟨trivial, ⟨fl, h, .refl _ _ _⟩, fun _ _ _ heq => by cases heq⟩
    | op o =>
      cases o with
      | outboxPop c n =>
        obtain ⟨hr, rfl⟩ := hpoll
        cases hr
        obtain ⟨hc, rfl⟩ := hallow
        obtain ⟨fl', hagree, hmoves, hwhole⟩ := serreadm_moves hc h
        refine ⟨trivial, ⟨fl', hagree, hmoves⟩, fun c' n' popped heq => ?_⟩
        cases heq
        exact hwhole
      | _ => cases hallow
    | _ => cases hallow
  | data bytes =>
    cases e with
    | io i =>
      cases i with
      | writeAll bs =>
        cases (hallow : bs = bytes)
        obtain ⟨hans, hserver⟩ := poller_answers hpoll
        cases hr : r with
        | error x => rw [hr] at hans; cases hans
        | ok u =>
          have hp := (congrArg Prod.snd hans).symm
          rw [hserver]
          exact ⟨rfl, data_moves h hp, fun _ _ _ heq => by cases heq⟩
      | _ => cases hallow
    | unlock l =>
      obtain ⟨-, rfl⟩ := hpoll
      exact ⟨trivial, ⟨fl, h, .refl _ _ _⟩, fun _ _ _ heq => by cases heq⟩
    | _ => cases hallow

/-! ## Section 5: Every interleaving -/

/-- What an effect of another task does to the outbox. -/
def queued (e : Eff D) (out : Channel → List UInt8) : Channel → List UInt8 :=
  match e with
  | .op (.outboxExtend c bs) => Function.update out c (out c ++ bs)
  | _ => out

theorem leaving_outbox {e : Eff D} (h : Leaving e) (s : Server D) :
    (e.serverAfter s).vserialOutbox = queued e s.vserialOutbox := by
  cases e with
  | op o => cases o <;> first | rfl | cases h
  | _ => rfl

theorem queued_grows (e : Eff D) (out : Channel → List UInt8) (c : Channel) :
    (out c).length ≤ (queued e out c).length := by
  unfold queued
  split
  · rename_i c' bs
    by_cases hc : c = c'
    · subst hc
      rw [Function.update_self, List.length_append]
      exact Nat.le_add_right _ _
    · rw [Function.update_of_ne hc]
  · exact le_rfl

/-- The step queues bytes for the guest. -/
def Sends (c : Channel) (l : SysLabel D) : Prop := ∃ bs, l.2.1 = .op (.outboxExtend c bs)

theorem queued_of_ne {e : Eff D} {c : Channel} (h : ∀ bs, e ≠ .op (.outboxExtend c bs))
    (out : Channel → List UInt8) : queued e out c = out c := by
  unfold queued
  split
  · rename_i c' bs
    have hc : c ≠ c' := by
      rintro rfl
      exact h bs rfl
    exact Function.update_of_ne hc _ _
  · rfl

theorem queued_of_not_sends {l : SysLabel D} {c : Channel} (h : ¬ Sends c l)
    (out : Channel → List UInt8) : queued l.2.1 out c = out c :=
  queued_of_ne (fun bs heq => h ⟨bs, heq⟩) out

/-- A step of the guest session, which queues nothing and finds every byte
    that it pops. -/
structure Session (g : Nat) (l : SysLabel D) : Prop where
  task  : l.1 = .guest g
  sends : ∀ c, ¬ Sends c l
  whole : ∀ c n popped, l.2 = ⟨.op (.outboxPop c n), popped⟩ → none ∉ popped.toList

/-- What is to be shown of the bytes on their way, if the steps of the hosts
    meet `ok`. -/
structure Tracked (g : Nat) (ok : SysLabel D → Prop)
    (X : List (SysLabel D) → (Channel → List UInt8) → Poller → Flight → Prop) : Prop where
  below : ∀ l, ok l → ¬ Sends lastChannel l
  moves : ∀ tr ls out out' p p' fl fl', X tr out p fl → Moves out out' p p' fl fl' →
    (∀ l ∈ ls, Session g l) → X (tr ++ ls) out' p' fl'
  hosts : ∀ tr l out p fl, X tr out p fl → ok l → l.1 ≠ .guest g →
    X (tr ++ [l]) (queued l.2.1 out) p fl

/-- The invariant of the runs with a polling guest. -/
structure Polling (g : Nat)
    (X : List (SysLabel D) → (Channel → List UInt8) → Poller → Flight → Prop)
    (tr : List (SysLabel D)) (turns : Tid → Turn) (w : World D F (Poller × N)) : Prop where
  others : ∀ t, t ≠ .guest g → turns t = .off ∨ turns t = .other
  last   : w.server.vserialOutbox lastChannel = []
  agree  : ∃ fl, Agree w.server.vserialOutbox (turns (.guest g)) w.net.1 fl ∧
    X tr w.server.vserialOutbox w.net.1 fl

theorem Agree.start {out : Channel → List UInt8} {p : Poller} {fl : Flight}
    (h : Agree out .off p fl) : Agree out .opcode p fl := by
  cases h with
  | ready => exact .ready _ _ _ (.inl rfl)
  | asked => exact .asked _ _ _ (.inl rfl)

theorem poller_pending {i : Io} {p : Poller} (h : (p.answer i).1 = .pending) :
    (p.answer i).2 = p := by
  cases i with
  | readExact n =>
    by_cases hn : n ≤ p.toServer.length
    · rw [Poller.answer, dif_pos hn] at h
      cases h
    · rw [Poller.answer, dif_neg hn]
  | writeAll bs => cases h
  | _ => rfl

section runs

variable {rest : Env D F N} {g : Nat}

/-- The guest notices nothing when its session is polled in vain. -/
theorem poll_pending_poller {t : Tid} {e : Eff D} {w w' : World D F (Poller × N)}
    (h : poll (withPoller rest g) t e w .pending w') : w'.net.1 = w.net.1 := by
  cases e with
  | io i =>
    obtain ⟨n, hnet, rfl⟩ := h
    rcases hnet with ⟨-, hr, hn⟩ | ⟨-, hn, -⟩
    · rw [hn]
      exact poller_pending hr.symm
    · exact hn
  | _ => rw [poll_net h fun _ h => by cases h]

/-- Other tasks do not speak to the guest. -/
theorem poll_other_poller {t : Tid} {e : Eff D} {r : e.Res} {w w' : World D F (Poller × N)}
    (ht : t ≠ .guest g) (h : poll (withPoller rest g) t e w (.ready r) w') :
    w'.net.1 = w.net.1 := by
  cases e with
  | io i =>
    obtain ⟨n, hnet, rfl⟩ := h
    rcases hnet with ⟨hguest, -⟩ | ⟨-, hn, -⟩
    · exact absurd hguest ht
    · exact hn
  | _ => rw [poll_net h fun _ h => by cases h]

variable [VDisk D] [UnicodeTables]

variable (rest g) in
def pollDiscipline : Discipline (system (withPoller rest g)) Turn where
  toProtocol := polling
  off        := .off
  gone       := .other
  enter      := Turn.enter
  leave      := Turn.Leaves
  body_obeys := body_polling

omit [VDisk D] [UnicodeTables] in
/-- A step of the guest session keeps the invariant. -/
theorem session_keeps {X : List (SysLabel D) → (Channel → List UInt8) → Poller → Flight → Prop}
    {ok : SysLabel D → Prop} (hX : Tracked g ok X) {tr : List (SysLabel D)} {turns : Tid → Turn}
    {e : Eff D} {r : e.Res} {w w' : World D F (Poller × N)} (h : Polling g X tr turns w)
    (hallow : (turns (.guest g)).Allows e)
    (hpoll : poll (withPoller rest g) (.guest g) e w (.ready r) w') :
    (turns (.guest g)).Admits e r ∧ Polling g X (tr ++ [(.guest g, ⟨e, r⟩)])
      (Function.update turns (.guest g) ((turns (.guest g)).next e r)) w' := by
  obtain ⟨fl, hagree, htracked⟩ := h.agree
  obtain ⟨hadm, ⟨fl', hagree', hmoves⟩, hwhole⟩ := session_moves hagree h.last hallow hpoll
  have hsends : ∀ c, ¬ Sends c ((.guest g, ⟨e, r⟩) : SysLabel D) := by
    rintro c ⟨bs, heq⟩
    cases (heq : e = _)
    generalize turns (.guest g) = turn at hallow hagree
    cases turn with
    | other => exact hagree.not_other
    | _ => cases hallow
  refine ⟨hadm, fun t ht => ?_, hmoves.shrink _ h.last, fl', ?_, ?_⟩
  · rw [Function.update_of_ne ht]
    exact h.others t ht
  · rw [Function.update_self]
    exact hagree'
  · refine hX.moves _ _ _ _ _ _ _ _ htracked hmoves fun l hl => ?_
    rw [List.mem_singleton.mp hl]
    exact ⟨rfl, hsends, fun c n popped heq => hwhole c n popped heq⟩

omit [VDisk D] [UnicodeTables] in
/-- So does a step of any other task. -/
theorem host_keeps {X : List (SysLabel D) → (Channel → List UInt8) → Poller → Flight → Prop}
    {ok : SysLabel D → Prop} (hX : Tracked g ok X) {tr : List (SysLabel D)} {turns : Tid → Turn}
    {t : Tid} {e : Eff D} {r : e.Res} {w w' : World D F (Poller × N)}
    (h : Polling g X tr turns w) (ht : t ≠ .guest g) (hallow : (turns t).Allows e)
    (hok : ok (t, ⟨e, r⟩)) (hpoll : poll (withPoller rest g) t e w (.ready r) w') :
    (turns t).Admits e r ∧ Polling g X (tr ++ [(t, ⟨e, r⟩)])
      (Function.update turns t ((turns t).next e r)) w' := by
  -- no other task speaks to the guest or takes from the outbox
  have hturn : turns t = .other := by
    rcases h.others t ht with hoff | hother
    · rw [hoff] at hallow
      cases e <;> cases hallow
    · exact hother
  rw [hturn] at hallow ⊢
  have hout : w'.server.vserialOutbox = queued e w.server.vserialOutbox := by
    rw [poll_server hpoll]
    exact leaving_outbox (by cases e <;> exact hallow) w.server
  obtain ⟨fl, hagree, htracked⟩ := h.agree
  have hsame : Function.update turns t .other (.guest g) = turns (.guest g) :=
    Function.update_of_ne (Ne.symm ht) _ _
  rw [other_next]
  refine ⟨by cases e <;> trivial, fun u hu => ?_, ?_, fl, ?_, ?_⟩
  · by_cases hut : u = t
    · subst hut
      exact .inr (Function.update_self ..)
    · rw [Function.update_of_ne hut]
      exact h.others u hu
  · rw [hout]
    exact (queued_of_not_sends (hX.below _ hok) _).trans h.last
  · rw [hsame, hout, poll_other_poller ht hpoll]
    exact hagree.mono (queued_grows e _)
  · rw [hout, poll_other_poller ht hpoll]
    exact hX.hosts _ _ _ _ _ htracked hok ht

theorem pollDiscipline_keeps
    {X : List (SysLabel D) → (Channel → List UInt8) → Poller → Flight → Prop}
    {ok : SysLabel D → Prop} (hX : Tracked g ok X) :
    (pollDiscipline rest g).KeepsAlong (fun _ l => ok l) (Polling g X) where
  start := by
    intro tr turns w t h hoff hmay
    by_cases ht : t = .guest g
    · subst ht
      obtain ⟨fl, hagree, htracked⟩ := h.agree
      rw [show turns (.guest g) = .off from hoff] at hagree
      refine ⟨fun u hu => ?_, h.last, fl, ?_, htracked⟩
      · rw [Function.update_of_ne hu]
        exact h.others u hu
      · rw [Function.update_self]
        exact hagree.start
    · refine ⟨fun u hu => ?_, h.last, ?_⟩
      · by_cases hut : u = t
        · subst hut
          rw [Function.update_self]
          cases u with
          | guest k =>
            -- no second guest session is accepted
            rcases hmay with ⟨k', hk, hkg⟩ | ⟨hnone, -⟩
            · cases hk
              exact absurd (congrArg Tid.guest hkg) ht
            · exact absurd rfl (hnone k)
          | _ => exact .inr rfl
        · rw [Function.update_of_ne hut]
          exact h.others u hu
      · rw [Function.update_of_ne (Ne.symm ht)]
        exact h.agree
  again := by
    intro tr turns w t h hleave
    have hsame : (pollDiscipline rest g).enter t = turns t := by
      cases t <;> exact hleave.symm
    rw [hsame, Function.update_eq_self]
    exact h
  exit := by
    intro tr turns w t r h hleave
    have ht : t ≠ .guest g := by
      rintro rfl
      exact hleave
    refine ⟨fun u hu => ?_, h.last, ?_⟩
    · by_cases hut : u = t
      · subst hut
        exact .inr (Function.update_self ..)
      · rw [Function.update_of_ne hut]
        exact h.others u hu
    · rw [Function.update_of_ne (Ne.symm ht)]
      exact h.agree
  pending := by
    intro tr turns w t e w' h _ hpoll
    refine ⟨h.others, ?_, ?_⟩
    · rw [poll_pending_server hpoll]
      exact h.last
    · rw [poll_pending_server hpoll, poll_pending_poller hpoll]
      exact h.agree
  ready := by
    intro tr c turns t e k r w' h _ _ hallow hok hpoll
    -- the session moves bytes along; any other task may only add some
    by_cases ht : t = .guest g
    · subst ht
      exact session_keeps hX h hallow hpoll
    · exact host_keeps hX h ht hallow hok hpoll
  ambient := by
    rintro tr turns w w' h ⟨n, hnet, rfl⟩
    obtain ⟨fl, hagree, htracked⟩ := h.agree
    rcases hnet with ⟨hstep, -⟩ | ⟨hn, -⟩
    · obtain ⟨fl', hagree', hmoves⟩ := poller_moves hagree hstep
      refine ⟨h.others, h.last, fl', hagree', ?_⟩
      have hmoved := hX.moves _ [] _ _ _ _ _ _ htracked hmoves fun l hl => by cases hl
      rwa [List.append_nil] at hmoved
    · refine ⟨h.others, h.last, fl, ?_, ?_⟩
      · show Agree _ _ n.1 fl
        rw [hn]
        exact hagree
      · show X tr _ n.1 fl
        rw [hn]
        exact htracked

end runs

/-! ## Section 6: What is tracked -/

theorem queued_traffic (l : SysLabel D) (out : Channel → List UInt8) (c : Channel) :
    queued l.2.1 out c = out c ++ traffic (fun o _ => outboxIn c o) [l] := by
  obtain ⟨t, e, r⟩ := l
  cases e with
  | op o =>
    cases o with
    | outboxExtend c' bs =>
      show Function.update out c' (out c' ++ bs) c = out c ++ ((if c' = c then bs else []) ++ [])
      by_cases hc : c' = c
      · subst hc
        rw [Function.update_self, if_pos rfl, List.append_nil]
      · rw [Function.update_of_ne (Ne.symm hc), if_neg hc, List.append_nil, List.append_nil]
    | _ => exact (List.append_nil _).symm
  | _ => exact (List.append_nil _).symm

theorem traffic_of_not_sends {ls : List (SysLabel D)} {c : Channel}
    (h : ∀ l ∈ ls, ¬ Sends c l) : traffic (fun o _ => outboxIn c o) ls = [] := by
  refine List.flatMap_eq_nil_iff.mpr fun l hl => ?_
  have hone := queued_traffic l (fun _ => []) c
  rw [queued_of_not_sends (h l hl), List.nil_append] at hone
  simpa [traffic] using hone.symm

/-- The bytes that were sent to a channel are those that the guest has taken,
    those on their way, and those that are queued; and every byte that was
    popped for a SERREADM had been queued. -/
def Delivers (s : Server D) (g : Nat) (tr : List (SysLabel D)) (out : Channel → List UInt8)
    (p : Poller) (fl : Flight) : Prop :=
  (∀ c, s.vserialOutbox c ++ traffic (fun o _ => outboxIn c o) tr =
    p.taken (idOf c) ++ fl.bytes c ++ out c) ∧
  ∀ c n popped, ((.guest g, ⟨.op (.outboxPop c n), popped⟩) : SysLabel D) ∈ tr →
    none ∉ popped.toList

theorem delivers_tracked (s : Server D) (g : Nat) :
    Tracked g (fun l => ¬ Sends lastChannel l) (Delivers s g) where
  below := fun _ h => h
  moves := by
    intro tr ls out out' p p' fl fl' h hmoves hls
    refine ⟨fun c => ?_, fun c n popped hmem => ?_⟩
    · have hsplit : traffic (fun o _ => outboxIn c o) (tr ++ ls) =
          traffic (fun o _ => outboxIn c o) tr ++ traffic (fun o _ => outboxIn c o) ls :=
        List.flatMap_append
      rw [hsplit, traffic_of_not_sends fun l hl => (hls l hl).sends c, List.append_nil, h.1 c]
      exact (hmoves.stream c).symm
    · rcases List.mem_append.mp hmem with hmem | hmem
      · exact h.2 c n popped hmem
      · exact (hls _ hmem).whole c n popped rfl
  hosts := by
    intro tr l out p fl h hok ht
    refine ⟨fun c => ?_, fun c n popped hmem => ?_⟩
    · have hsplit : traffic (fun o _ => outboxIn c o) (tr ++ [l]) =
          traffic (fun o _ => outboxIn c o) tr ++ traffic (fun o _ => outboxIn c o) [l] :=
        List.flatMap_append
      rw [hsplit, queued_traffic, ← List.append_assoc, h.1 c, List.append_assoc]
    · rcases List.mem_append.mp hmem with hmem | hmem
      · exact h.2 c n popped hmem
      · rw [← List.mem_singleton.mp hmem] at ht
        exact absurd rfl ht

/-- With no more bytes arriving: one of the polls from number `asked` on has
    found nothing, by number `asked + budget`, or each of them has used up one
    of `budget` bytes. -/
def Within (asked budget : Nat) (_ : List (SysLabel D)) (out : Channel → List UInt8)
    (p : Poller) (fl : Flight) : Prop :=
  ((∃ k ≤ budget, (answers p fl)[asked + k]? = some (0x00, 0x00)) ∧ ∀ c, out c = []) ∨
    (∀ k, (answers p fl)[asked + k]? ≠ some (0x00, 0x00)) ∧
      (answers p fl).length - asked + total out ≤ budget + fl.owed

theorem within_moves {asked budget : Nat} {tr tr' : List (SysLabel D)}
    {out out' : Channel → List UInt8} {p p' : Poller} {fl fl' : Flight}
    (h : Within asked budget tr out p fl) (hmoves : Moves out out' p p' fl fl') :
    Within asked budget tr' out' p' fl' := by
  -- answers are only added
  have hgrows : answers p fl <+: answers p' fl' := by
    cases hmoves.counts with
    | same hans => rw [hans]
    | found r _ hans => rw [hans]; exact List.prefix_append _ _
    | empty hans => rw [hans]; exact List.prefix_append _ _
  rcases h with ⟨⟨k, hk, hfound⟩, hnone⟩ | ⟨hnot, hbudget⟩
  · refine .inl ⟨⟨k, hk, ?_⟩, fun c => hmoves.shrink c (hnone c)⟩
    obtain ⟨more, hmore⟩ := hgrows
    rw [← hmore, List.getElem?_append_left (List.getElem?_eq_some_iff.mp hfound).1]
    exact hfound
  · cases hmoves.counts with
    | same hans htotal =>
      rw [← hans] at hnot hbudget
      exact .inr ⟨hnot, by omega⟩
    | found r hr hans htotal =>
      refine .inr ⟨fun k hk => ?_, ?_⟩
      · rw [hans, List.getElem?_append] at hk
        split at hk
        · exact hnot k hk
        · rw [List.getElem?_singleton] at hk
          split at hk
          · exact hr (Option.some_inj.mp hk)
          · cases hk
      · rw [hans, List.length_append, List.length_singleton]
        omega
    | empty hans hempty hempty' howed =>
      have hzero := total_empty hempty
      have hzero' := total_empty hempty'
      -- the poll that has found nothing was asked for since, or is the one before
      by_cases hasked : asked ≤ (answers p fl).length
      · refine .inl ⟨⟨(answers p fl).length - asked, by omega, ?_⟩, hempty'⟩
        rw [hans, Nat.add_sub_cancel' hasked, List.getElem?_concat_length]
      · refine .inr ⟨fun k hk => ?_, ?_⟩
        · have hlt := (List.getElem?_eq_some_iff.mp hk).1
          rw [hans, List.length_append, List.length_singleton] at hlt
          omega
        · rw [hans, List.length_append, List.length_singleton]
          omega

theorem within_tracked (g asked budget : Nat) :
    Tracked (D := D) g (fun l => ∀ c, ¬ Sends c l) (Within asked budget) where
  below := fun _ h => h lastChannel
  moves := fun _ _ _ _ _ _ _ _ h hmoves _ => within_moves h hmoves
  hosts := by
    intro tr l out p fl h hok _
    have hsame : queued l.2.1 out = out := funext fun c => queued_of_not_sends (hok c) out
    rw [hsame]
    exact h

theorem Agree.answers_le {out : Channel → List UInt8} {turn : Turn} {p : Poller} {fl : Flight}
    (h : Agree out turn p fl) : (answers p fl).length ≤ p.asked := by
  cases h <;>
    simp [answers, Poller.asked, Flight.none, Flight.ofScan, Flight.promised, Flight.data]

/-- Nothing is under way between two polls. -/
theorem ready_flight {out : Channel → List UInt8} {turn : Turn} {p : Poller} {fl : Flight}
    (h : Agree out turn p fl) (hready : p.phase = .ready) : fl = .none := by
  cases h with
  | ready => rfl
  | _ => cases hready

/-- A promised count is in its queue. -/
theorem Agree.owed_le {out : Channel → List UInt8} {turn : Turn} {p : Poller} {fl : Flight}
    (h : Agree out turn p fl) : fl.owed = 0 ∨ fl.owed = 1 ∧ 1 ≤ total out := by
  have hpromise : ∀ c n, Promise out (.burst c n) → 1 ≤ total out := by
    rintro c n ⟨-, hthree, hlen⟩
    have hle : (out c).length ≤ total out :=
      Finset.single_le_sum (f := fun c => (out c).length) (fun _ _ => Nat.zero_le _)
        (Finset.mem_univ c)
    omega
  cases h with
  | scanned found taken replies h =>
    cases found with
    | burst c n => exact .inr ⟨rfl, hpromise c n h⟩
    | _ => exact .inl rfl
  | replied found taken replies h =>
    cases found with
    | burst c n => exact .inr ⟨rfl, hpromise c n h⟩
    | _ => exact .inl rfl
  | requested c n _ _ h => exact .inr ⟨rfl, hpromise c n h⟩
  | header c n _ _ h => exact .inr ⟨rfl, hpromise c n h⟩
  | pop c n _ _ h => exact .inr ⟨rfl, hpromise c n h⟩
  | _ => exact .inl rfl

/-! ## Section 7: Polling until nothing is left -/

/-- The session on its own, answered by the guest. -/
def pollAnswer (g : Nat) : (e : Eff D) → World D F (Poller × N) →
    Option (e.Res × World D F (Poller × N))
  | .io i, w =>
    match w.net.1.answer i with
    | (.ready r, p) => some (r, { w with net := (p, w.net.2) })
    | (.pending, _) => none
  | .lock l m, w => if w.holders l = [] then some ((), w.acquire (.guest g) l m) else none
  | .unlock l, w => some ((), w.release (.guest g) l)
  | .op .outboxScan, w =>
    some ((Op.outboxScan.run w.server).1, { w with server := (Op.outboxScan.run w.server).2 })
  | .op (.outboxPop c n), w =>
    some (((Op.outboxPop c n).run w.server).1,
      { w with server := ((Op.outboxPop c n).run w.server).2 })
  | _, _ => none

theorem pollAnswer_poll {rest : Env D F N} {g : Nat} {e : Eff D} {r : e.Res}
    {w w' : World D F (Poller × N)} (h : pollAnswer g e w = some (r, w')) :
    poll (withPoller rest g) (.guest g) e w (.ready r) w' := by
  -- what the computed answers leave out needs another task
  cases e with
  | io i =>
    rw [pollAnswer] at h
    split at h
    · rename_i r' p hans
      cases h
      refine ⟨(p, w.net.2), .inl ⟨rfl, ?_, ?_⟩, rfl⟩ <;> rw [hans]
    · cases h
  | lock l m =>
    by_cases hl : w.holders l = []
    · rw [pollAnswer, if_pos hl] at h
      cases h
      exact .inr ⟨World.free_of_nil hl m, rfl, rfl⟩
    · rw [pollAnswer, if_neg hl] at h
      cases h
  | unlock l =>
    cases h
    exact ⟨rfl, rfl⟩
  | op o =>
    cases o with
    | outboxScan =>
      cases h
      exact ⟨rfl, rfl⟩
    | outboxPop c n =>
      cases h
      exact ⟨rfl, rfl⟩
    | _ => cases h
  | _ => cases h

/-- The guest and its session are between two polls, and nobody uses the
    outbox. -/
structure Between (g : Nat) (c : SysConfig D F (Poller × N)) : Prop where
  task  : c.task (.guest g) = .live guestOnce
  quiet : c.world.net.1 = ⟨[], [], .ready, c.world.net.1.taken, c.world.net.1.replies⟩
  free  : c.world.holders .vserialOutbox = []
  last  : c.world.server.vserialOutbox lastChannel = []

/-- The world after the session has handled what the guest has sent. -/
def served (w : World D F (Poller × N)) (s : Server D) (p : Poller) : World D F (Poller × N) :=
  { w with server := s, net := (p, w.net.2),
           holders := Function.update w.holders .vserialOutbox [] }

theorem served_holders (w : World D F (Poller × N)) (s : Server D) (p : Poller) :
    (served w s p).holders .vserialOutbox = [] := by
  simp [served]

theorem eval_serread_poll {g : Nat} {w : World D F (Poller × N)} {taken : UInt8 → List UInt8}
    {replies : List (UInt8 × UInt8)} (hfree : w.holders .vserialOutbox = [])
    (hp : w.net.1 = ⟨[0x43], [], .reply, taken, replies⟩) :
    guestOnce.eval (pollAnswer g) w = some (.again, served w (Op.outboxScan.run w.server).2
      ⟨[], serreadReply (Op.outboxScan.run w.server).1, .reply, taken, replies⟩) := by
  have hread : pollAnswer g (.io (.readExact 1)) w = some (.ok #v[0x43],
      { w with net := (⟨[], [], .reply, taken, replies⟩, w.net.2) }) := by
    rw [pollAnswer, hp]
    rfl
  rw [guestOnce, runOnce_eq, Prog.eff_bind, Prog.eval_eff, hread]
  show ((handleSerread (D := D)).run >>= fun r => Prog.ret (flowOf r)).eval _ _ = _
  rw [handleSerread_eq]
  simp [pollAnswer, World.acquire, World.release, hfree, Poller.answer, served, flowOf]

theorem eval_serreadm_poll {g : Nat} {w : World D F (Poller × N)} {c : Channel} {n : UInt8}
    {taken : UInt8 → List UInt8} {replies : List (UInt8 × UInt8)}
    (hfree : w.holders .vserialOutbox = [])
    (hp : w.net.1 = ⟨[0x63, idOf c, n], [], .burst (idOf c) n, taken, replies⟩) :
    guestOnce.eval (pollAnswer g) w = some (.again,
      served w ((Op.outboxPop c n.toNat).run w.server).2
        ⟨[], (popFronts n.toNat (w.server.vserialOutbox c)).1.toList.map (·.getD 0),
          .burst (idOf c) n, taken, replies⟩) := by
  have hread : pollAnswer g (.io (.readExact 1)) w = some (.ok #v[0x63],
      { w with net := (⟨[idOf c, n], [], .burst (idOf c) n, taken, replies⟩, w.net.2) }) := by
    rw [pollAnswer, hp]
    rfl
  have hheader : pollAnswer g (.io (.readExact 2))
      { w with net := (⟨[idOf c, n], [], .burst (idOf c) n, taken, replies⟩, w.net.2) } =
        some (.ok #v[idOf c, n],
          { w with net := (⟨[], [], .burst (idOf c) n, taken, replies⟩, w.net.2) }) := rfl
  have hlt : (idOf c).toNat < vserialChannels := by
    rw [idOf_toNat]
    exact c.isLt
  have hc : (⟨(idOf c).toNat, hlt⟩ : Channel) = c := Fin.ext (idOf_toNat c)
  have hd : Decoded.fromByte (byte0 #v[0x63]) = .op .serReadM := by decide
  -- one iteration of the loop, computed
  rw [guestOnce, runOnce_eq, Prog.eff_bind, Prog.eval_eff, hread, Option.bind_some]
  dsimp only
  rw [hd]
  show ((handleSerreadm (D := D)).run >>= fun r => Prog.ret (flowOf r)).eval _ _ = _
  rw [handleSerreadm, run_readExact_bind, Prog.eff_bind, Prog.eval_eff, hheader]
  show ((call (popPadded (idOf c) n) >>= fun buf => writeAll buf).run >>= fun r =>
    Prog.ret (flowOf r)).eval _ _ = _
  rw [run_call_bind, popPadded, dif_pos hlt, hc, guarded_eq]
  simp [pollAnswer, World.acquire, World.release, hfree, Poller.answer, served, flowOf,
    Op.lock, Op.run, run_writeAll]

section progress

variable [VDisk D] [UnicodeTables] {rest : Env D F N} {g : Nat}

/-- No bytes arrive for the guest. -/
def nothingSent (_ : SysConfig D F (Poller × N)) (l : SysLabel D) : Prop := ∀ c, ¬ Sends c l

/-- One iteration of the session. -/
theorem session_run {c : SysConfig D F (Poller × N)} {w : World D F (Poller × N)}
    (htask : c.task (.guest g) = .live guestOnce)
    (heval : guestOnce.eval (pollAnswer g) c.world = some (.again, w)) :
    ∃ tr, Run (system (withPoller rest g)) nothingSent c tr { c with world := w } := by
  have hok : ∀ (c : SysConfig D F (Poller × N)) (e : Eff D) (r : e.Res) w',
      pollAnswer g e c.world = some (r, w') → nothingSent c (.guest g, ⟨e, r⟩) := by
    rintro c e r w' h ch ⟨bs, heq⟩
    cases (heq : e = _)
    cases h
  have hself : Run (system (withPoller rest g)) nothingSent c [] c := Run.refl c
  obtain ⟨tr, hrun⟩ := hself.of_eval (fun _ _ _ _ => pollAnswer_poll) hok htask heval
  refine ⟨tr, ?_⟩
  have hagain := hrun.silent (Step.again (.guest g) (Config.put_self ..))
  have hsame : ((c.put (.guest g) (.live (.ret .again)) w).put (.guest g)
      (.live ((system (withPoller rest g)).body (.guest g))) w) = { c with world := w } := by
    have hbody : (system (withPoller rest g)).body (.guest g) = guestOnce := rfl
    rw [hbody, ← htask]
    simp [Config.put]
  rwa [← hsame]

/-- One step of the guest. -/
theorem guest_run {c : SysConfig D F (Poller × N)} {p : Poller}
    (hstep : c.world.net.1.step = some p) :
    Run (system (withPoller rest g)) nothingSent c []
      { c with world := { c.world with net := (p, c.world.net.2) } } := by
  have hambient : (system (withPoller rest g)).ambient c.world
      { c.world with net := (p, c.world.net.2) } :=
    ⟨(p, c.world.net.2), .inl ⟨hstep, rfl⟩, rfl⟩
  exact Run.silent (Run.refl c) (Step.ambient _ hambient)

/-- The configuration after the session has handled what the guest has sent. -/
def handled (c : SysConfig D F (Poller × N)) (s : Server D) (p : Poller) :
    SysConfig D F (Poller × N) :=
  { c with world := served c.world s p }

omit [VDisk D] [UnicodeTables] in
theorem between_handled {c : SysConfig D F (Poller × N)}
    (htask : c.task (.guest g) = .live guestOnce) {s : Server D}
    (hlast : s.vserialOutbox lastChannel = []) (taken : UInt8 → List UInt8)
    (replies : List (UInt8 × UInt8)) : Between g (handled c s ⟨[], [], .ready, taken, replies⟩) :=
  ⟨htask, rfl, served_holders .., hlast⟩

variable (rest) in
/-- The guest sends SERREAD, and reads what the scan has found. -/
theorem ask_run {c : SysConfig D F (Poller × N)} (hc : Between g c) {found : Scan}
    {out' : Channel → List UInt8}
    (hscan : scanOutbox (List.finRange vserialChannels) c.world.server.vserialOutbox =
      (found, out')) : ∃ s tr, s.vserialOutbox = out' ∧
    Run (system (withPoller rest g)) nothingSent c tr (handled c s
      (Poller.handle ⟨[], serreadReply found, .reply, c.world.net.1.taken, c.world.net.1.replies⟩
        (replyCode found) (replySecond found) [])) := by
  have hreply : (Op.outboxScan.run c.world.server).1 = found := congrArg Prod.fst hscan
  have hsend : c.world.net.1.step =
      some ⟨[0x43], [], .reply, c.world.net.1.taken, c.world.net.1.replies⟩ := by
    rw [hc.quiet]
    rfl
  let w₁ : World D F (Poller × N) := { c.world with
    net := (⟨[0x43], [], .reply, c.world.net.1.taken, c.world.net.1.replies⟩, c.world.net.2) }
  have hasked : Run (system (withPoller rest g)) nothingSent c [] { c with world := w₁ } :=
    guest_run hsend
  have heval : guestOnce.eval (pollAnswer g) w₁ = some (.again, _) :=
    eval_serread_poll hc.free rfl
  obtain ⟨tr, hserved⟩ : ∃ tr, Run (system (withPoller rest g)) nothingSent { c with world := w₁ }
      tr _ := session_run hc.task heval
  have hstep := step_reply found c.world.net.1.taken c.world.net.1.replies
  rw [← hreply] at hstep ⊢
  exact ⟨_, _, congrArg Prod.snd hscan, (hasked.trans hserved).trans (guest_run hstep)⟩

variable (rest) in
/-- The guest takes the bytes of a channel that it has asked for. -/
theorem fetch_run (c : SysConfig D F (Poller × N)) {ch : Channel} {n : UInt8}
    {taken : UInt8 → List UInt8} {replies : List (UInt8 × UInt8)}
    (htask : c.task (.guest g) = .live guestOnce) (hfree : c.world.holders .vserialOutbox = [])
    (hp : c.world.net.1 = ⟨[0x63, idOf ch, n], [], .burst (idOf ch) n, taken, replies⟩)
    (hpromise : Promise c.world.server.vserialOutbox (.burst ch n)) :
    ∃ s tr, s.vserialOutbox = Function.update c.world.server.vserialOutbox ch
        ((c.world.server.vserialOutbox ch).drop n.toNat) ∧
      Run (system (withPoller rest g)) nothingSent c tr (handled c s ⟨[], [], .ready,
        Poller.take ⟨[], [], .ready, taken, replies⟩ (idOf ch)
          ((c.world.server.vserialOutbox ch).take n.toNat), replies⟩) := by
  have heval := eval_serreadm_poll (g := g) hfree hp
  obtain ⟨hbytes, -, -⟩ := pop_moves hpromise taken replies
  rw [hbytes] at heval
  obtain ⟨tr, hserved⟩ : ∃ tr, Run (system (withPoller rest g)) nothingSent c tr _ :=
    session_run htask heval
  have hlen : ((c.world.server.vserialOutbox ch).take n.toNat).length = n.toNat := by
    rw [List.length_take]
    exact min_eq_left hpromise.2.2
  refine ⟨_, _, ?_, hserved.trans (guest_run (step_takes hlen (idOf ch) taken replies))⟩
  rw [← popFronts_snd]
  rfl

/-- What one poll does when the outbox is not empty. -/
structure Polled (c c' : SysConfig D F (Poller × N)) : Prop where
  replies : ∃ r, c'.world.net.1.replies = c.world.net.1.replies ++ [r]
  fewer   : total c'.world.server.vserialOutbox < total c.world.server.vserialOutbox
  stream  : ∀ ch, c'.world.net.1.taken (idOf ch) ++ c'.world.server.vserialOutbox ch =
    c.world.net.1.taken (idOf ch) ++ c.world.server.vserialOutbox ch

/-- The reply `[0x00, 0x00]`, with every queue empty. -/
structure Finished (c c' : SysConfig D F (Poller × N)) : Prop where
  replies : c'.world.net.1.replies = c.world.net.1.replies ++ [(0x00, 0x00)]
  before  : ∀ ch, c.world.server.vserialOutbox ch = []
  empty   : ∀ ch, c'.world.server.vserialOutbox ch = []
  taken   : c'.world.net.1.taken = c.world.net.1.taken

variable (rest) in
/-- A poll that finds nothing. -/
theorem poll_empty {c : SysConfig D F (Poller × N)} (hc : Between g c)
    {out' : Channel → List UInt8}
    (hscan : scanOutbox (List.finRange vserialChannels) c.world.server.vserialOutbox =
      (.empty, out')) : ∃ tr c',
    Run (system (withPoller rest g)) nothingSent c tr c' ∧ Between g c' ∧ Finished c c' := by
  obtain ⟨hfound, hafter⟩ := scanOutbox_found c.world.server.vserialOutbox
  rw [hscan] at hfound hafter
  have hsame : out' = c.world.server.vserialOutbox := hafter
  obtain ⟨s, tr, hout, hrun⟩ := ask_run rest hc hscan
  have hkept : s.vserialOutbox = c.world.server.vserialOutbox := hout.trans hsame
  have hlast : s.vserialOutbox lastChannel = [] := (congrFun hkept _).trans hc.last
  refine ⟨tr, _, hrun, between_handled hc.task hlast _ _, rfl, hfound, fun ch => ?_, rfl⟩
  exact (congrFun hkept ch).trans (hfound ch)

variable (rest) in
/-- A poll that finds a byte. -/
theorem poll_byte {c : SysConfig D F (Poller × N)} (hc : Between g c) {ch : Channel} {b : UInt8}
    {out' : Channel → List UInt8}
    (hscan : scanOutbox (List.finRange vserialChannels) c.world.server.vserialOutbox =
      (.byte ch b, out')) : ∃ tr c',
    Run (system (withPoller rest g)) nothingSent c tr c' ∧ Between g c' ∧ Polled c c' := by
  obtain ⟨hpromise, hmoves⟩ :=
    scan_moves hc.last c.world.net.1.taken c.world.net.1.replies hscan
  obtain ⟨hfound, -⟩ := scanOutbox_found c.world.server.vserialOutbox
  rw [hscan] at hfound
  obtain ⟨s, tr, hout, hrun⟩ := ask_run rest hc hscan
  rw [replySecond, handle_byte hpromise] at hrun
  have hlast : s.vserialOutbox lastChannel = [] :=
    (congrFun hout _).trans (hmoves.shrink _ hc.last)
  refine ⟨tr, _, hrun, between_handled hc.task hlast _ _, ⟨_, rfl⟩, ?_, fun ch' => ?_⟩
  · show total s.vserialOutbox < _
    rw [hout]
    cases hmoves.counts with
    | same hans => simp [answers, Flight.none, Flight.ofScan] at hans
    | found _ _ _ htotal =>
      have hbefore : Flight.none.owed = 0 := rfl
      have hbehind : (Flight.ofScan (.byte ch b)).owed = 0 := rfl
      omega
    | empty _ hempty => exact absurd (hempty ch) hfound.1.1
  · have hstream := hmoves.stream ch'
    show Poller.take _ (idOf ch) [b] (idOf ch') ++ s.vserialOutbox ch' = _
    rw [take_stream, hout]
    simpa [Flight.none, Flight.ofScan, Scan.taken, eq_comm (a := ch)] using hstream

variable (rest) in
/-- A poll that finds a count, and the request for the bytes. -/
theorem poll_burst {c : SysConfig D F (Poller × N)} (hc : Between g c) {ch : Channel} {n : UInt8}
    {out' : Channel → List UInt8}
    (hscan : scanOutbox (List.finRange vserialChannels) c.world.server.vserialOutbox =
      (.burst ch n, out')) : ∃ tr c',
    Run (system (withPoller rest g)) nothingSent c tr c' ∧ Between g c' ∧ Polled c c' := by
  obtain ⟨hpromise, -⟩ :=
    scan_moves hc.last c.world.net.1.taken c.world.net.1.replies hscan
  obtain ⟨-, hafter⟩ := scanOutbox_found c.world.server.vserialOutbox
  rw [hscan] at hafter
  have hsame : out' = c.world.server.vserialOutbox := hafter
  obtain ⟨s, tr, hout, hrun⟩ := ask_run rest hc hscan
  rw [replySecond, handle_burst hpromise.1] at hrun
  have hkept : s.vserialOutbox = c.world.server.vserialOutbox := hout.trans hsame
  rw [← hout] at hpromise
  obtain ⟨s', tr', htaken, hrun'⟩ :=
    fetch_run rest (handled c s _) hc.task (served_holders ..) rfl hpromise
  have hout' : s'.vserialOutbox =
    Function.update s.vserialOutbox ch ((s.vserialOutbox ch).drop n.toNat) := htaken
  obtain ⟨-, -, hpop⟩ := pop_moves hpromise c.world.net.1.taken
    (c.world.net.1.replies ++ [(replyCode (.burst ch n), n)])
  have hlast : s'.vserialOutbox lastChannel = [] := by
    rw [hout']
    exact hpop.shrink _ ((congrFun hkept _).trans hc.last)
  have htask : ∀ p, (handled c s p).task (.guest g) = .live guestOnce := fun _ => hc.task
  refine ⟨tr ++ tr', _, hrun.trans hrun', between_handled (htask _) hlast _ _, ⟨_, rfl⟩, ?_,
    fun ch' => ?_⟩
  · -- At least three bytes are taken.
    show total s'.vserialOutbox < _
    have htotal := total_update s.vserialOutbox ch ((s.vserialOutbox ch).drop n.toNat)
    obtain ⟨-, hthree, hlen⟩ := hpromise
    rw [List.length_drop] at htotal
    rw [hout', ← hkept]
    omega
  · show Poller.take _ (idOf ch) ((s.vserialOutbox ch).take n.toNat) (idOf ch') ++
      s'.vserialOutbox ch' = _
    rw [take_stream, hout', ← hkept]
    simpa [Flight.promised, Flight.data] using hpop.stream ch'

variable (rest) in
theorem poll_once {c : SysConfig D F (Poller × N)} (hc : Between g c) : ∃ tr c',
    Run (system (withPoller rest g)) nothingSent c tr c' ∧ Between g c' ∧
      (Finished c c' ∨ Polled c c') := by
  generalize hscan : scanOutbox (List.finRange vserialChannels) c.world.server.vserialOutbox = scan
  obtain ⟨found, out'⟩ := scan
  cases found with
  | empty =>
    obtain ⟨tr, c', hrun, hbetween, hfinished⟩ := poll_empty rest hc hscan
    exact ⟨tr, c', hrun, hbetween, .inl hfinished⟩
  | byte ch b =>
    obtain ⟨tr, c', hrun, hbetween, hpolled⟩ := poll_byte rest hc hscan
    exact ⟨tr, c', hrun, hbetween, .inr hpolled⟩
  | burst ch n =>
    obtain ⟨tr, c', hrun, hbetween, hpolled⟩ := poll_burst rest hc hscan
    exact ⟨tr, c', hrun, hbetween, .inr hpolled⟩

/-- Polling has taken everything: the last reply found nothing, after at most
    as many replies as there were bytes. -/
structure Drained (c c' : SysConfig D F (Poller × N)) : Prop where
  replies : ∃ rs, c'.world.net.1.replies = c.world.net.1.replies ++ rs ++ [(0x00, 0x00)] ∧
    rs.length ≤ total c.world.server.vserialOutbox
  empty   : ∀ ch, c'.world.server.vserialOutbox ch = []
  taken   : ∀ ch, c'.world.net.1.taken (idOf ch) =
    c.world.net.1.taken (idOf ch) ++ c.world.server.vserialOutbox ch

variable (rest) in
/-- Polling on, by induction on the number of queued bytes. -/
theorem poll_out {c : SysConfig D F (Poller × N)} (hc : Between g c) : ∃ tr c',
    Run (system (withPoller rest g)) nothingSent c tr c' ∧ Between g c' ∧ Drained c c' := by
  induction hn : total c.world.server.vserialOutbox using Nat.strong_induction_on
    generalizing c with
  | _ n ih =>
    obtain ⟨tr, c', hrun, hbetween, hdone | hpolled⟩ := poll_once rest hc
    · refine ⟨tr, c', hrun, hbetween, ⟨[], ?_, Nat.zero_le _⟩, hdone.empty, fun ch => ?_⟩
      · rw [hdone.replies, List.append_nil]
      · rw [hdone.taken, hdone.before, List.append_nil]
    · have hfewer := hpolled.fewer
      obtain ⟨tr', c'', hrun', hlater, hdrained⟩ := ih _ (by omega) hbetween rfl
      obtain ⟨r, hr⟩ := hpolled.replies
      obtain ⟨rs, hrs, hlen⟩ := hdrained.replies
      refine ⟨tr ++ tr', c'', hrun.trans hrun', hlater, ⟨r :: rs, ?_, ?_⟩, hdrained.empty,
        fun ch => ?_⟩
      · rw [hrs, hr]
        simp
      · rw [List.length_cons]
        omega
      · rw [hdrained.taken, hpolled.stream]

end progress

/-! ## Section 8: The loop -/

section loop

variable [VDisk D] [UnicodeTables] (rest : Env D F N) (g : Nat)

/-- What a run with a polling guest has reached. -/
theorem polling_run (s : Server D) (f : F) (n : N) (hlast : s.vserialOutbox lastChannel = [])
    {tr : List (SysLabel D)} {c : SysConfig D F (Poller × N)}
    (hrun : Run (system (withPoller rest g)) (fun _ l => ¬ Sends lastChannel l)
      (Config.initial (World.initial s f (Poller.new, n))) tr c) :
    ∃ turns, (pollDiscipline rest g).Holds (Polling g (Delivers s g) tr) c turns := by
  refine (pollDiscipline rest g).run_along (pollDiscipline_keeps (delivers_tracked s g)) hrun ?_
  refine (pollDiscipline rest g).holds_initial ⟨fun _ _ => .inl rfl, hlast, .none, ?_, ?_⟩
  · exact .ready _ _ _ (.inr rfl)
  · exact ⟨fun _ => List.append_nil _, fun _ _ _ hmem => by cases hmem⟩

/-- When no more bytes arrive, the polls from number `asked` on count down. -/
theorem quiet_run {J : List (SysLabel D) → (Channel → List UInt8) → Poller → Flight → Prop}
    {tr tr' : List (SysLabel D)} {c c' : SysConfig D F (Poller × N)} {turns : Tid → Turn}
    (h : (pollDiscipline rest g).Holds (Polling g J tr) c turns)
    (hrun : Run (system (withPoller rest g)) nothingSent c tr' c') :
    ∃ (turn : Turn) (fl : Flight), Agree c'.world.server.vserialOutbox turn c'.world.net.1 fl ∧
      Within c.world.net.1.asked (total c.world.server.vserialOutbox) tr'
        c'.world.server.vserialOutbox c'.world.net.1 fl := by
  obtain ⟨fl, hagree, -⟩ := h.1.agree
  have hle := hagree.answers_le
  have hstart : Within c.world.net.1.asked (total c.world.server.vserialOutbox)
      ([] : List (SysLabel D)) c.world.server.vserialOutbox c.world.net.1 fl := by
    refine .inr ⟨fun k hk => ?_, by omega⟩
    have hlt := (List.getElem?_eq_some_iff.mp hk).1
    omega
  have hkeeps : (pollDiscipline rest g).KeepsAlong _ _ := pollDiscipline_keeps
    (within_tracked (D := D) g c.world.net.1.asked (total c.world.server.vserialOutbox))
  obtain ⟨turns', hturns'⟩ := (pollDiscipline rest g).run_along hkeeps hrun
    ⟨turns, ⟨h.1.others, h.1.last, fl, hagree, hstart⟩, h.2⟩
  obtain ⟨fl', hagree', hwithin⟩ := hturns'.1.agree
  exact ⟨_, fl', hagree', hwithin⟩

/-- Where the polls of a configuration lead, when no more bytes arrive. -/
structure Counted (c c' : SysConfig D F (Poller × N)) : Prop where
  /-- A reply that finds nothing leaves every queue empty. -/
  empty : ∀ k : Nat, c'.world.net.1.replies[c.world.net.1.asked + k]? = some (0x00, 0x00) →
    ∀ ch, c'.world.server.vserialOutbox ch = []
  /-- It is one of the first `total + 1` replies. -/
  bound : c.world.net.1.asked + total c.world.server.vserialOutbox <
      c'.world.net.1.replies.length →
    ∃ k ≤ total c.world.server.vserialOutbox,
      c'.world.net.1.replies[c.world.net.1.asked + k]? = some (0x00, 0x00)

omit [VDisk D] [UnicodeTables] in
theorem counted_of_within {tr' : List (SysLabel D)} {c c' : SysConfig D F (Poller × N)}
    {turn : Turn} {fl : Flight}
    (hagree : Agree c'.world.server.vserialOutbox turn c'.world.net.1 fl)
    (hwithin : Within c.world.net.1.asked (total c.world.server.vserialOutbox) tr'
      c'.world.server.vserialOutbox c'.world.net.1 fl) : Counted c c' := by
  -- What the guest has read are the first of the answers.
  have hread : ∀ i, i < c'.world.net.1.replies.length →
      (answers c'.world.net.1 fl)[i]? = c'.world.net.1.replies[i]? := fun i hi =>
    List.getElem?_append_left hi
  rcases hwithin with ⟨⟨k, hk, hfound⟩, hempty⟩ | ⟨hnot, hbudget⟩
  · refine ⟨fun _ _ => hempty, fun hlt => ⟨k, hk, ?_⟩⟩
    rw [← hread _ (by omega)]
    exact hfound
  · refine ⟨fun k hk => absurd ?_ (hnot k), fun hlt => absurd hbudget ?_⟩
    · rw [hread _ (List.getElem?_eq_some_iff.mp hk).1]
      exact hk
    · have hlen : c'.world.net.1.replies.length ≤ (answers c'.world.net.1 fl).length := by
        simp [answers]
      rcases hagree.owed_le with howed | ⟨howed, hpos⟩ <;> omega

end loop

/-- A server with three bytes queued for channel 1. -/
def threeQueued : Server Unit :=
  { Server.new Unit with vserialOutbox := fun c => if c = 1 then [0x41, 0x42, 0x43] else [] }

end DriveWire
