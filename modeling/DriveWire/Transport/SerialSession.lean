import DriveWire.Server.Party
import DriveWire.Server.Script
import DriveWire.Transport.SerialReader

/-! # A Session on a Serial Port

    `dw serve --serial` opens a port, drains what is left over from an earlier
    session, and then runs a guest session on it.  The reader thread, the
    writer thread, the drain and the session share the port.  Together they
    are one byte stream in each direction: what is drained and what the
    session reads are the bytes of the device, in order, and what the session
    writes is what the device gets. -/

namespace DriveWire

open Async

variable {D F N : Type}

namespace Serial

/-! ## Section 1: The port -/

/-- Where `serve` is with its port: in the loop of `drain_serial` before it
    looks at the clock, in the read with a timeout, or in `run`. -/
inductive Opening where
  | checking : (deadline : Nat) → Opening
  | reading  : (deadline timer : Nat) → Opening
  | serving  : Opening

/-- What `libc::read` has returned. -/
def readResult : Event ReaderEff.Res → List Int
  | ⟨.read, (n, _)⟩ => [n]
  | _ => []

/-- What `libc::write` has returned. -/
def writeResult : Event WriterEff.Res → List Int
  | ⟨.write _, n⟩ => [n]
  | _ => []

/-- `BlockingSerial` with its two threads, the task that owns it, and a record
    of what the kernel has returned to the threads. -/
structure BlockingSerial where
  rx      : InboxConfig
  tx      : PortConfig
  /-- The results of `libc::read`. -/
  reads   : List Int
  /-- The results of `libc::write`. -/
  writes  : List Int
  /-- The clock. -/
  now     : Nat
  opening : Opening
  /-- `total` of `drain_serial` -/
  total   : Nat
  /-- What `drain_serial` has read. -/
  drained : List UInt8
  /-- What the `read_exact` that is under way has read. -/
  got     : List UInt8

namespace BlockingSerial

/-- The port when `open` has returned, for a drain of `window`. -/
def opened (window now : Nat) : BlockingSerial where
  rx      := Config.initial Inbox.new
  tx      := Config.initial Port.new
  reads   := []
  writes  := []
  now     := now
  opening := if 0 < window then .checking (now + window) else .serving
  total   := 0
  drained := []
  got     := []

/-- The port after a call of `poll_read`. -/
def polled (p : BlockingSerial) (remaining : Nat) (ready : Bool) : BlockingSerial :=
  { p with rx := { p.rx with world := p.rx.world.poll remaining ready } }

end BlockingSerial

/-- The size of the buffer of `drain_serial`. -/
def drainBuf : Nat := 1024

/-- How the loop of `drain_serial` goes on after a read. -/
def drainRead (deadline : Nat) : Except IoError (List UInt8) → Opening
  | .ok []   => .serving
  | .ok _    => .checking deadline
  | .error _ => .serving

/-- A step of `drain_serial`.  `timeout` polls the read first, and then its
    timer. -/
inductive DrainStep : BlockingSerial → BlockingSerial → Prop where
  | check : ∀ (p : BlockingSerial) deadline later, p.opening = .checking deadline →
      p.now ≤ later →
      DrainStep p { p with
        now     := later
        opening := if deadline - p.now = 0 then .serving
          else .reading deadline (later + (deadline - p.now)) }
  | read : ∀ (p : BlockingSerial) deadline timer ready bs, p.opening = .reading deadline timer →
      (pollRead drainBuf ready p.rx.world).1 = .ready (.ok bs) →
      DrainStep p { p.polled drainBuf ready with
        total   := p.total + bs.length
        drained := p.drained ++ bs
        opening := drainRead deadline (.ok bs) }
  | error : ∀ (p : BlockingSerial) deadline timer ready e, p.opening = .reading deadline timer →
      (pollRead drainBuf ready p.rx.world).1 = .ready (.error e) →
      DrainStep p { p.polled drainBuf ready with opening := drainRead deadline (.error e) }
  | pending : ∀ (p : BlockingSerial) deadline timer ready, p.opening = .reading deadline timer →
      (pollRead drainBuf ready p.rx.world).1 = .pending →
      DrainStep p { p.polled drainBuf ready with
        opening := if timer ≤ p.now then .serving else .reading deadline timer }

/-- The threads by themselves, without the calls from the other side. -/
inductive ThreadStep : BlockingSerial → BlockingSerial → Prop where
  | reader : ∀ (p : BlockingSerial) (l : Option InboxLabel) rx, Step reader.alone p.rx l rx →
      ThreadStep p { p with
        rx    := rx
        reads := p.reads ++ l.toList.flatMap fun l => readResult l.2 }
  | writer : ∀ (p : BlockingSerial) (l : Option PortLabel) tx, Step writer.alone p.tx l tx →
      ThreadStep p { p with
        tx     := tx
        writes := p.writes ++ l.toList.flatMap fun l => writeResult l.2 }
  | tick : ∀ (p : BlockingSerial) later, p.now ≤ later → ThreadStep p { p with now := later }

/-- A poll of `read_exact` on `n` bytes, of which `got` have been read: it
    polls the stream until that has nothing, or the buffer is full. -/
inductive PollExact (n : Nat) : List UInt8 → Inbox → Poll (Except IoError (Vector UInt8 n)) →
    List UInt8 → Inbox → Prop where
  | full : ∀ (v : Vector UInt8 n) p, PollExact n v.toList p (.ready (.ok v)) [] p
  | pending : ∀ got p ready, got.length < n →
      (pollRead (n - got.length) ready p).1 = .pending →
      PollExact n got p .pending got (p.poll (n - got.length) ready)
  | error : ∀ got p ready e, got.length < n →
      (pollRead (n - got.length) ready p).1 = .ready (.error e) →
      PollExact n got p (.ready (.error e)) [] (p.poll (n - got.length) ready)
  | eof : ∀ got p ready, got.length < n →
      (pollRead (n - got.length) ready p).1 = .ready (.ok []) →
      PollExact n got p (.ready (.error earlyEof)) [] (p.poll (n - got.length) ready)
  | more : ∀ got p ready bs r got' p', got.length < n → bs ≠ [] →
      (pollRead (n - got.length) ready p).1 = .ready (.ok bs) →
      PollExact n (got ++ bs) (p.poll (n - got.length) ready) r got' p' →
      PollExact n got p r got' p'

/-- The port, from the side of the session, which uses `read_exact` and
    `write_all` only. -/
def BlockingSerial.serves : (i : Io) → BlockingSerial → Poll i.Res → BlockingSerial → Prop
  | .readExact n, p, r, p' => ∃ got inbox, PollExact n p.got p.rx.world r got inbox ∧
      p' = { p with rx := { p.rx with world := inbox }, got := got }
  | .writeAll bs, p, r, p' =>
    -- an empty buffer is not written
    (bs = [] ∧ r = .ready (.ok ()) ∧ p' = p) ∨
    (bs ≠ [] ∧ r = .ready ((pollWrite bs p.tx.world).1.map fun _ => ()) ∧
      p' = { p with tx := { p.tx with world := (pollWrite bs p.tx.world).2 } })
  | _, p, r, p' => r = .pending ∧ p' = p

/-- The port is the transport of guest session `g`, when it has been drained. -/
def serialParty (g : Nat) : Party BlockingSerial where
  own     := fun t => t = .guest g
  accepts := fun p => p.opening = .serving
  serves  := fun i p r p' => p.serves i r p'
  step    := fun p p' => DrainStep p p' ∨ ThreadStep p p'

/-! ## Section 2: The two threads -/

/-- The other side of the reader thread is where it was. -/
theorem reader_alone {c c' : InboxConfig} {l : Option InboxLabel} (h : Step reader.alone c l c') :
    c'.world.stream = c.world.stream ∧ c'.world.delivered = c.world.delivered := by
  have hpoll : ∀ {e : ReaderEff} {r : Poll e.Res} {p p' : Inbox}, readerPoll e p r p' →
      p'.stream = p.stream ∧ p'.delivered = p.delivered := by
    intro e r p p' h
    cases e with
    | read => obtain ⟨-, rfl⟩ | ⟨_, _, _, -, rfl⟩ := h <;> exact ⟨rfl, rfl⟩
    | send chunk => obtain ⟨-, -, rfl⟩ | ⟨-, -, rfl⟩ := h <;> exact ⟨rfl, rfl⟩
    | close => obtain ⟨-, rfl⟩ := h; exact ⟨rfl, rfl⟩
  cases h with
  | start | again | exit => exact ⟨rfl, rfl⟩
  | ready t e k r w _ h => exact hpoll h
  | pending t e k w _ h => exact hpoll h
  | ambient w hw => cases hw

theorem writer_alone {c c' : PortConfig} {l : Option PortLabel} (h : Step writer.alone c l c') :
    c'.world.sender = c.world.sender ∧ c'.world.accepted = c.world.accepted := by
  have hpoll : ∀ {e : WriterEff} {r : Poll e.Res} {p p' : Port}, writerPoll e p r p' →
      p'.sender = p.sender ∧ p'.accepted = p.accepted := by
    intro e r p p' h
    cases e with
    | blockingRecv =>
      obtain ⟨_, _, -, -, rfl⟩ | ⟨-, -, -, rfl⟩ | ⟨-, -, -, rfl⟩ := h <;> exact ⟨rfl, rfl⟩
    | write remaining => obtain ⟨-, rfl⟩ | ⟨_, -, -, rfl⟩ := h <;> exact ⟨rfl, rfl⟩
    | close => obtain ⟨-, rfl⟩ := h; exact ⟨rfl, rfl⟩
  cases h with
  | start | again | exit => exact ⟨rfl, rfl⟩
  | ready t e k r w _ h => exact hpoll h
  | pending t e k w _ h => exact hpoll h
  | ambient w hw => cases hw

/-- The chunk that a step of the reader thread sends is taken. -/
def NotRefused : Event ReaderEff.Res → Prop
  | ⟨.send _, sent⟩ => sent = true
  | _ => True

/-- The reading side has come about by steps of the thread and calls of
    `poll_read`, with the results `reads` of the kernel. -/
def Reached (c : InboxConfig) (reads : List Int) : Prop :=
  (∃ tr, Run reader anyStep (Config.initial Inbox.new) tr c ∧
    (∀ ev ∈ eventsOf () tr, NotRefused ev) ∧ reads = (eventsOf () tr).flatMap readResult) ∧
  c.world.stream = true

theorem Reached.initial : Reached (Config.initial Inbox.new) [] :=
  ⟨⟨[], .refl _, fun _ hev => absurd hev List.not_mem_nil, rfl⟩, rfl⟩

/-- The receiver exists, so the thread's chunks are taken. -/
theorem notRefused_of_stream {c c' : InboxConfig} {ev : Event ReaderEff.Res}
    (hstream : c.world.stream = true) (h : Step reader.alone c (some ((), ev)) c') :
    NotRefused ev := by
  cases h with
  | ready t e k r w _ hpoll =>
    cases e with
    | send chunk =>
      have hpoll : readerPoll (.send chunk) c.world (.ready r) w := hpoll
      obtain ⟨-, hr, -⟩ | ⟨hgone, -, -⟩ := hpoll
      · injection hr
      · rw [hstream] at hgone
        cases hgone
    | _ => trivial

theorem Reached.thread {c c' : InboxConfig} {l : Option InboxLabel} {reads : List Int}
    (h : Reached c reads) (hstep : Step reader.alone c l c') :
    Reached c' (reads ++ l.toList.flatMap fun l => readResult l.2) := by
  obtain ⟨⟨tr, hrun, hsent, rfl⟩, hstream⟩ := h
  refine ⟨?_, (reader_alone hstep).1.trans hstream⟩
  cases l with
  | none => exact ⟨tr, hrun.silent hstep.of_alone, hsent, List.append_nil _⟩
  | some l =>
    obtain ⟨⟨⟩, ev⟩ := l
    refine ⟨tr ++ [((), ev)], hrun.act _ trivial hstep.of_alone, ?_, ?_⟩
    · intro ev' hev'
      rw [eventsOf_snoc_self] at hev'
      rcases List.mem_append.mp hev' with hold | hnew
      · exact hsent ev' hold
      · rw [List.mem_singleton.mp hnew]
        exact notRefused_of_stream hstream hstep
    · simp

theorem pollRead_stream (remaining : Nat) (ready : Bool) (p : Inbox) :
    (p.poll remaining ready).stream = p.stream := by
  have hanswer := pollRead_answers remaining ready p
  show (pollRead remaining ready p).2.stream = p.stream
  generalize (pollRead remaining ready p).1 = result at hanswer
  generalize (pollRead remaining ready p).2 = p' at hanswer ⊢
  cases hanswer <;> rfl

theorem pollRead_sender (remaining : Nat) (ready : Bool) (p : Inbox) :
    (p.poll remaining ready).sender = p.sender := by
  have hanswer := pollRead_answers remaining ready p
  show (pollRead remaining ready p).2.sender = p.sender
  generalize (pollRead remaining ready p).1 = result at hanswer
  generalize (pollRead remaining ready p).2 = p' at hanswer ⊢
  cases hanswer <;> rfl

theorem Reached.poll {c : InboxConfig} {reads : List Int} (h : Reached c reads) (remaining : Nat)
    (ready : Bool) : Reached { c with world := c.world.poll remaining ready } reads := by
  obtain ⟨⟨tr, hrun, hsent, hreads⟩, hstream⟩ := h
  refine ⟨⟨tr, ?_, hsent, hreads⟩, (pollRead_stream remaining ready c.world).trans hstream⟩
  exact hrun.silent (.ambient _ ⟨hstream, .inl ⟨remaining, ready, rfl⟩⟩)

/-- Every byte is in its place, and the promises of `poll_read` are kept. -/
theorem Reached.faithful {c : InboxConfig} {reads : List Int} (h : Reached c reads) :
    ∃ hand, Faithful hand c.world := by
  obtain ⟨⟨tr, hrun, -, -⟩, -⟩ := h
  have hinit : Faithful (.holds []) Inbox.new :=
    ⟨fun _ => rfl, fun _ => rfl, by simp [Inbox.new], fun h => (by cases h),
      ⟨by simp [Inbox.new], by simp [Inbox.new], by simp [Inbox.new], rfl⟩⟩
  obtain ⟨g, hg, -⟩ := handDiscipline.run_invariant handDiscipline_keeps hrun
    (handDiscipline.holds_initial hinit)
  exact ⟨g (), hg⟩

/-- What have been put into buffers are the first bytes of the device. -/
theorem Reached.delivered {c : InboxConfig} {reads : List Int} (h : Reached c reads) :
    c.world.delivered <+: c.world.device := by
  obtain ⟨hand, hfaithful⟩ := h.faithful
  refine ⟨(c.world.leftover ++ c.world.queue.flatten) ++ hand.bytes, ?_⟩
  rw [← List.append_assoc, hfaithful.bytes h.2, hfaithful.sent h.2]

/-- The sender is dropped when the reader thread leaves its loop. -/
theorem exited_of_closed {ok : InboxConfig → InboxLabel → Prop} {c : InboxConfig}
    {tr : List InboxLabel} (hrun : Run reader ok (Config.initial Inbox.new) tr c)
    (hclosed : c.world.sender = false) : c.task () = .exited () := by
  -- no effect of the thread drops the sender, only its exit
  have hpoll : ∀ {e : ReaderEff} {r : Poll e.Res} {p p' : Inbox}, readerPoll e p r p' →
      p'.sender = p.sender := by
    intro e r p p' h
    cases e with
    | read => obtain ⟨-, rfl⟩ | ⟨_, _, _, -, rfl⟩ := h <;> rfl
    | send chunk => obtain ⟨-, -, rfl⟩ | ⟨-, -, rfl⟩ := h <;> rfl
    | close => obtain ⟨-, rfl⟩ := h; rfl
  induction hrun with
  | refl => cases hclosed
  | silent _ hstep ih =>
    cases hstep with
    | start t hidle => exact absurd (hidle.symm.trans (ih hclosed)) nofun
    | pending t e k w hlive h =>
      have hbefore := ih ((hpoll h).symm.trans hclosed)
      exact absurd (hlive.symm.trans hbefore) nofun
    | again t hlive => exact absurd (hlive.symm.trans (ih hclosed)) nofun
    | exit t r => exact Config.put_self ..
    | ambient w hw =>
      apply ih
      obtain ⟨-, ⟨remaining, ready, rfl⟩ | rfl⟩ := hw
      · rw [← hclosed]
        exact (pollRead_sender remaining ready _).symm
      · exact hclosed
  | act l _ _ hstep ih =>
    cases hstep with
    | ready t e k r w hlive h =>
      have hbefore := ih ((hpoll h).symm.trans hclosed)
      exact absurd (hlive.symm.trans hbefore) nofun

/-- The thread leaves when the kernel has returned zero or an error. -/
theorem readerOnce_done {es : List (Event ReaderEff.Res)}
    (h : Prog.Walk readerOnce es (.ret (.done ()))) (hsent : ∀ ev ∈ es, NotRefused ev) :
    ∃ n, es.flatMap readResult = [n] ∧ n ≤ 0 := by
  obtain ⟨-, hret⟩ | ⟨⟨n, buf⟩, es, rfl, hread⟩ := h.eff_cases
  · cases hret
  dsimp only at hread
  -- the thread closes the port and is done
  have hclose : ∀ {es : List (Event ReaderEff.Res)},
      Prog.Walk (.eff .close fun _ => .ret (Flow.done ())) es (.ret (.done ())) →
      es.flatMap readResult = [] := by
    intro es hwalk
    obtain ⟨-, hret⟩ | ⟨_, es, rfl, hclosed⟩ := hwalk.eff_cases
    · cases hret
    · rw [hclosed.ret_nil]
      rfl
  by_cases hneg : n < 0
  · rw [if_pos hneg] at hread
    exact ⟨n, by rw [List.flatMap_cons, hclose hread]; rfl, by omega⟩
  by_cases hzero : n = 0
  · rw [if_neg hneg, if_pos hzero] at hread
    exact ⟨n, by rw [List.flatMap_cons, hclose hread]; rfl, by omega⟩
  rw [if_neg hneg, if_neg hzero] at hread
  obtain ⟨-, hret⟩ | ⟨sent, es, rfl, hafter⟩ := hread.eff_cases
  · cases hret
  have htaken : sent = true :=
    hsent ⟨.send (buf.toList.take n.toNat), sent⟩ (List.mem_cons_of_mem _ List.mem_cons_self)
  subst htaken
  cases hafter.ret_eq

/-- The device has ended: the reader thread has left, because the last call of
    the kernel returned zero or an error. -/
structure DeviceEnded (p : BlockingSerial) : Prop where
  closed : p.rx.world.sender = false
  left   : p.rx.task () = .exited ()
  last   : ∃ n, p.reads.getLast? = some n ∧ n ≤ 0

theorem Reached.ended {c : InboxConfig} {reads : List Int} (h : Reached c reads)
    (hclosed : c.world.sender = false) :
    c.task () = .exited () ∧ ∃ n, reads.getLast? = some n ∧ n ≤ 0 := by
  obtain ⟨⟨tr, hrun, hsent, rfl⟩, -⟩ := h
  have hexited := exited_of_closed hrun hclosed
  refine ⟨hexited, ?_⟩
  have hloops := hrun.loops ()
  rw [hexited] at hloops
  obtain ⟨rounds, cur, hevents, -, hcur⟩ := hloops
  obtain ⟨n, hn, hend⟩ := readerOnce_done hcur fun ev hev =>
    hsent ev (by rw [hevents]; exact List.mem_append_right _ hev)
  refine ⟨n, ?_, hend⟩
  rw [hevents, List.flatMap_append, hn, List.getLast?_concat]

/-- The condition on the kernel: once a call of `libc::write` has written
    nothing, no later one writes anything. -/
def StaysFailed (writes : List Int) : Prop := writes.Pairwise fun n m => n ≤ 0 → m ≤ 0

/-- The writing side. -/
def Accepting (c : PortConfig) (writes : List Int) : Prop :=
  (∃ tr, Run writer anyStep (Config.initial Port.new) tr c ∧
    writes = (eventsOf () tr).flatMap writeResult) ∧ c.world.sender = true

theorem Accepting.initial : Accepting (Config.initial Port.new) [] := ⟨⟨[], .refl _, rfl⟩, rfl⟩

theorem Accepting.thread {c c' : PortConfig} {l : Option PortLabel} {writes : List Int}
    (h : Accepting c writes) (hstep : Step writer.alone c l c') :
    Accepting c' (writes ++ l.toList.flatMap fun l => writeResult l.2) := by
  obtain ⟨⟨tr, hrun, rfl⟩, hsender⟩ := h
  refine ⟨?_, (writer_alone hstep).1.trans hsender⟩
  cases l with
  | none => exact ⟨tr, hrun.silent hstep.of_alone, List.append_nil _⟩
  | some l =>
    obtain ⟨⟨⟩, ev⟩ := l
    exact ⟨tr ++ [((), ev)], hrun.act _ trivial hstep.of_alone, by simp⟩

theorem Accepting.pollWrite {c : PortConfig} {writes : List Int} (h : Accepting c writes)
    (buf : List UInt8) : Accepting { c with world := (Serial.pollWrite buf c.world).2 } writes := by
  obtain ⟨⟨tr, hrun, hwrites⟩, hsender⟩ := h
  refine ⟨⟨tr, hrun.silent (.ambient _ ⟨hsender, .inl ⟨buf, rfl⟩⟩), hwrites⟩, ?_⟩
  show (Serial.pollWrite buf c.world).2.sender = true
  unfold Serial.pollWrite
  split <;> exact hsender

/-- When the port has failed, some call of the kernel has written nothing. -/
theorem failed_of_run {ok : PortConfig → PortLabel → Prop} {c : PortConfig} {tr : List PortLabel}
    (hrun : Run writer ok (Config.initial Port.new) tr c) (hfailed : c.world.failed = true) :
    ∃ n ∈ (eventsOf () tr).flatMap writeResult, n ≤ 0 := by
  induction hrun with
  | refl => cases hfailed
  | silent _ hstep ih =>
    apply ih
    cases hstep with
    | start | again | exit => exact hfailed
    | pending t e k w _ h =>
      have hpoll : writerPoll e _ .pending w := h
      cases e with
      | blockingRecv =>
        obtain ⟨_, _, -, hr, -⟩ | ⟨-, -, hr, -⟩ | ⟨-, -, -, rfl⟩ := hpoll
        · cases hr
        · cases hr
        · exact hfailed
      | write remaining =>
        obtain ⟨-, rfl⟩ | ⟨_, -, hr, -⟩ := hpoll
        · exact hfailed
        · cases hr
      | close => cases hpoll.1
    | ambient w hw =>
      obtain ⟨-, ⟨buf, rfl⟩ | rfl⟩ := hw
      · rw [← hfailed]
        unfold Serial.pollWrite
        split <;> rfl
      · exact hfailed
  | @act tr c c' l _ _ hstep ih =>
    obtain ⟨⟨⟩, ev⟩ := l
    rw [eventsOf_snoc_self, List.flatMap_append]
    have hbefore : c.world.failed = true → ∃ n ∈ (eventsOf () tr).flatMap writeResult ++
        [ev].flatMap writeResult, n ≤ 0 := by
      intro hfailed
      obtain ⟨n, hn, hend⟩ := ih hfailed
      exact ⟨n, List.mem_append_left _ hn, hend⟩
    cases hstep with
    | ready t e k r w _ h =>
      have hpoll : writerPoll e c.world (.ready r) w := h
      cases e with
      | blockingRecv =>
        apply hbefore
        obtain ⟨_, _, -, -, rfl⟩ | ⟨-, -, -, rfl⟩ | ⟨-, -, hr, -⟩ := hpoll
        · exact hfailed
        · exact hfailed
        · cases hr
      | write remaining =>
        obtain ⟨hr, -⟩ | ⟨n, -, hr, rfl⟩ := hpoll
        · cases hr
        · cases hr
          -- either this is the call, or the port had failed before
          by_cases hn : r ≤ 0
          · exact ⟨r, List.mem_append_right _ (List.mem_singleton_self _), hn⟩
          · apply hbefore
            simpa [Port.write, hn] using hfailed
      | close =>
        apply hbefore
        obtain ⟨-, rfl⟩ := hpoll
        exact hfailed

/-- Runs in which the kernel stays failed. -/
theorem run_staysFailed {c : PortConfig} {tr : List PortLabel}
    (hrun : Run writer anyStep (Config.initial Port.new) tr c)
    (hstays : StaysFailed ((eventsOf () tr).flatMap writeResult)) :
    Run writer staysFailed (Config.initial Port.new) tr c := by
  induction hrun with
  | refl => exact .refl _
  | silent _ hstep ih => exact (ih hstays).silent hstep
  | act l hrun _ hstep ih =>
    obtain ⟨⟨⟩, e, r⟩ := l
    rw [eventsOf_snoc_self, List.flatMap_append] at hstays
    obtain ⟨hbefore, -, hlater⟩ := List.pairwise_append.mp hstays
    refine (ih hbefore).act _ ?_ hstep
    cases e with
    | write remaining =>
      intro hfailed
      obtain ⟨n, hn, hend⟩ := failed_of_run hrun hfailed
      exact hlater n hn r (List.mem_singleton_self _) hend
    | _ => trivial

/-- There is no hole in what the device gets. -/
theorem Accepting.wire {c : PortConfig} {writes : List Int} (h : Accepting c writes)
    (hstays : StaysFailed writes) : c.world.wire <+: c.world.accepted.flatten := by
  obtain ⟨⟨tr, hrun, rfl⟩, -⟩ := h
  obtain ⟨g, hg, -⟩ := chunkDiscipline.run_invariant chunkDiscipline_keeps
    (run_staysFailed hrun hstays)
    (chunkDiscipline.holds_initial ⟨fun _ => rfl, List.prefix_refl []⟩)
  exact hg.noHole

/-! ## Section 3: Reading -/

/-- What a poll of `read_exact` has to do with the bytes `new` that it has
    taken from the stream. -/
def Took (n : Nat) (got new : List UInt8) (p' : Inbox) :
    Poll (Except IoError (Vector UInt8 n)) → List UInt8 → Prop
  | .pending, got' => got' = got ++ new
  | .ready (.ok v), got' => got' = [] ∧ v.toList = got ++ new
  | .ready (.error e), got' => got' = [] ∧ (got ++ new).length < n ∧ e = unexpectedEof ∧
      p'.delivered = p'.device ∧ p'.sender = false

theorem poll_delivered (remaining : Nat) (ready : Bool) (p : Inbox) :
    (p.poll remaining ready).delivered = p.delivered ++
      ReadCall.bytes ⟨remaining, (pollRead remaining ready p).1⟩ := rfl

/-- **A poll of `read_exact` takes the next bytes of the stream**, fails only
    at its end, and never sees an empty read. -/
theorem PollExact.took {n : Nat} {got : List UInt8} {p : Inbox}
    {r : Poll (Except IoError (Vector UInt8 n))} {got' : List UInt8} {p' : Inbox}
    (h : PollExact n got p r got' p') {c : InboxConfig} {reads : List Int} (hc : c.world = p)
    (hreached : Reached c reads) :
    Reached { c with world := p' } reads ∧
      ∃ new, p'.delivered = p.delivered ++ new ∧ Took n got new p' r got' := by
  induction h generalizing c with
  | full v p =>
    subst hc
    refine ⟨hreached, [], ?_, rfl, ?_⟩
    · rw [List.append_nil]
    · rw [List.append_nil]
  | pending got p ready hroom hpending =>
    subst hc
    refine ⟨hreached.poll _ ready, [], ?_, ?_⟩
    · rw [poll_delivered, hpending]
      rfl
    · show got = got ++ []
      rw [List.append_nil]
  | error got p ready e hroom herror =>
    subst hc
    have hafter := hreached.poll (n - got.length) ready
    obtain ⟨hand, hfaithful⟩ := hafter.faithful
    obtain ⟨heof, hclosed, hall⟩ := hfaithful.kept.atEnd ⟨n - got.length, .ready (.error e)⟩ (by
      rw [← herror]
      exact List.mem_append_right _ (List.mem_singleton_self _)) e rfl
    refine ⟨hafter, [], ?_, rfl, ?_, heof, hall, hclosed⟩
    · rw [poll_delivered, herror]
      rfl
    · rwa [List.append_nil]
  | eof got p ready hroom hempty =>
    -- success on a buffer with room means at least one byte
    subst hc
    obtain ⟨hand, hfaithful⟩ := (hreached.poll (n - got.length) ready).faithful
    have hsome := hfaithful.kept.progress ⟨n - got.length, .ready (.ok [])⟩ (by
      rw [← hempty]
      exact List.mem_append_right _ (List.mem_singleton_self _)) [] rfl (by
        show 0 < n - got.length
        omega)
    exact absurd rfl hsome
  | more got p ready bs r got' p' hroom hne hread hrest ih =>
    subst hc
    obtain ⟨hafter, new, hdelivered, htook⟩ := ih rfl (hreached.poll (n - got.length) ready)
    refine ⟨hafter, bs ++ new, ?_, ?_⟩
    · rw [hdelivered, poll_delivered, hread, List.append_assoc]
      rfl
    · cases r with
      | pending =>
        show got' = got ++ (bs ++ new)
        rw [← List.append_assoc]
        exact htook
      | ready r =>
        cases r with
        | ok v =>
          refine ⟨htook.1, ?_⟩
          rw [← List.append_assoc]
          exact htook.2
        | error e =>
          refine ⟨htook.1, ?_⟩
          rw [← List.append_assoc]
          exact htook.2

/-! ## Section 4: The session and its port -/

/-- The bytes that a step has read. -/
def readIn : Event (Eff.Res (D := D)) → List UInt8
  | ⟨.io (.readExact _), .ok v⟩ => v.toList
  | _ => []

/-- The bytes that a step has written. -/
def writtenIn : Event (Eff.Res (D := D)) → List UInt8
  | ⟨.io (.writeAll bs), .ok _⟩ => bs
  | _ => []

/-- The step is a `read_exact` that has failed. -/
def ReadFails : Event (Eff.Res (D := D)) → Prop
  | ⟨.io (.readExact _), .error _⟩ => True
  | _ => False

def readBy (g : Nat) (tr : List (SysLabel D)) : List UInt8 :=
  (eventsOf (.guest g) tr).flatMap readIn

def writtenBy (g : Nat) (tr : List (SysLabel D)) : List UInt8 :=
  (eventsOf (.guest g) tr).flatMap writtenIn

/-- No `read_exact` of the session has failed. -/
def ReadsOn (g : Nat) (tr : List (SysLabel D)) : Prop :=
  ∀ ev ∈ eventsOf (.guest g) tr, ¬ ReadFails ev

theorem readBy_snoc (g : Nat) (tr : List (SysLabel D)) (ev : Event (Eff.Res (D := D))) :
    readBy g (tr ++ [(.guest g, ev)]) = readBy g tr ++ readIn ev := by
  simp [readBy]

theorem writtenBy_snoc (g : Nat) (tr : List (SysLabel D)) (ev : Event (Eff.Res (D := D))) :
    writtenBy g (tr ++ [(.guest g, ev)]) = writtenBy g tr ++ writtenIn ev := by
  simp [writtenBy]

theorem readsOn_snoc {g : Nat} {tr : List (SysLabel D)} {ev : Event (Eff.Res (D := D))}
    (h : ReadsOn g (tr ++ [(.guest g, ev)])) : ReadsOn g tr ∧ ¬ ReadFails ev := by
  rw [ReadsOn, eventsOf_snoc_self] at h
  exact ⟨fun ev' hev' => h ev' (List.mem_append_left _ hev'),
    h ev (List.mem_append_right _ (List.mem_singleton_self _))⟩

/-- The invariant of the runs. -/
structure Shared (g : Nat) (tr : List (SysLabel D)) (p : BlockingSerial) : Prop where
  rx     : Reached p.rx p.reads
  tx     : Accepting p.tx p.writes
  count  : p.total = p.drained.length
  input  : ReadsOn g tr → p.rx.world.delivered = p.drained ++ readBy g tr ++ p.got
  output : p.tx.world.accepted.flatten = writtenBy g tr
  /-- The session has not begun before the drain is over. -/
  before : p.opening ≠ .serving → eventsOf (.guest g) tr = [] ∧ p.got = []

theorem shared_opened (g window now : Nat) :
    Shared (D := D) g [] (BlockingSerial.opened window now) where
  rx     := .initial
  tx     := .initial
  count  := rfl
  input  := fun _ => rfl
  output := rfl
  before := fun _ => ⟨rfl, rfl⟩

section shared

variable {g : Nat} {tr : List (SysLabel D)} {p p' : BlockingSerial}

/-- **Step lemma** for the drain. -/
theorem Shared.drain (h : Shared g tr p) (hstep : DrainStep p p') : Shared g tr p' := by
  have hnone : p.opening ≠ .serving → ReadsOn g tr ∧ readBy g tr = [] ∧ p.got = [] := by
    intro hopening
    obtain ⟨hevents, hgot⟩ := h.before hopening
    refine ⟨fun ev hev => ?_, ?_, hgot⟩
    · rw [hevents] at hev
      cases hev
    · rw [readBy, hevents]
      rfl
  cases hstep with
  | check deadline later hopening hlater =>
    refine ⟨h.rx, h.tx, h.count, h.input, h.output, fun _ => h.before ?_⟩
    rw [hopening]
    exact fun heq => by cases heq
  | read deadline timer ready bs hopening hread =>
    have hbefore : p.opening ≠ .serving := by
      rw [hopening]
      exact fun heq => by cases heq
    obtain ⟨hon, hread', hgot⟩ := hnone hbefore
    refine ⟨h.rx.poll drainBuf ready, h.tx, ?_, fun _ => ?_, h.output, fun _ => h.before hbefore⟩
    · show p.total + bs.length = (p.drained ++ bs).length
      rw [h.count, List.length_append]
    · show (p.rx.world.poll drainBuf ready).delivered = p.drained ++ bs ++ readBy g tr ++ p.got
      rw [poll_delivered, hread, h.input hon, hread', hgot]
      simp [ReadCall.bytes]
  | error deadline timer ready e hopening herror =>
    have hbefore : p.opening ≠ .serving := by
      rw [hopening]
      exact fun heq => by cases heq
    refine ⟨h.rx.poll drainBuf ready, h.tx, h.count, fun hon => ?_, h.output,
      fun _ => h.before hbefore⟩
    show (p.rx.world.poll drainBuf ready).delivered = _
    rw [poll_delivered, herror]
    exact (List.append_nil _).trans (h.input hon)
  | pending deadline timer ready hopening hpending =>
    have hbefore : p.opening ≠ .serving := by
      rw [hopening]
      exact fun heq => by cases heq
    refine ⟨h.rx.poll drainBuf ready, h.tx, h.count, fun hon => ?_, h.output,
      fun _ => h.before hbefore⟩
    -- nothing is lost when the timer has run out
    show (p.rx.world.poll drainBuf ready).delivered = _
    rw [poll_delivered, hpending]
    exact (List.append_nil _).trans (h.input hon)

/-- **Step lemma** for the threads. -/
theorem Shared.thread (h : Shared g tr p) (hstep : ThreadStep p p') : Shared g tr p' := by
  cases hstep with
  | reader l rx hrx =>
    refine ⟨h.rx.thread hrx, h.tx, h.count, fun hon => ?_, h.output, h.before⟩
    exact (reader_alone hrx).2.trans (h.input hon)
  | writer l tx htx =>
    refine ⟨h.rx, h.tx.thread htx, h.count, h.input, ?_, h.before⟩
    show tx.world.accepted.flatten = _
    rw [(writer_alone htx).2]
    exact h.output
  | tick later hlater => exact ⟨h.rx, h.tx, h.count, h.input, h.output, h.before⟩

theorem serves_opening {i : Io} {r : Poll i.Res} (h : p.serves i r p') :
    p'.opening = p.opening := by
  cases i with
  | readExact n => obtain ⟨got, inbox, -, rfl⟩ := h; rfl
  | writeAll bs => obtain ⟨-, -, rfl⟩ | ⟨-, -, rfl⟩ := h <;> rfl
  | read | nextLine | nextCall => obtain ⟨-, rfl⟩ := h; rfl

/-- A poll of the session that has to wait. -/
theorem Shared.waits (h : Shared g tr p) (hserving : p.opening = .serving) {i : Io}
    (hserves : p.serves i .pending p') : Shared g tr p' := by
  have hbefore : ∀ p' : BlockingSerial, p'.opening = p.opening → p'.opening ≠ .serving →
      eventsOf (.guest g) tr = [] ∧ p'.got = [] := by
    intro p' hsame hne
    exact absurd (hsame.trans hserving) hne
  have hopening := serves_opening hserves
  cases i with
  | readExact n =>
    obtain ⟨got, inbox, hpoll, rfl⟩ := hserves
    obtain ⟨hrx, new, hdelivered, htook⟩ := hpoll.took rfl h.rx
    refine ⟨hrx, h.tx, h.count, fun hon => ?_, h.output, hbefore _ hopening⟩
    have hgot : got = p.got ++ new := htook
    show inbox.delivered = p.drained ++ readBy g tr ++ got
    rw [hdelivered, h.input hon, hgot, List.append_assoc _ p.got new]
  | writeAll bs => obtain ⟨-, hr, -⟩ | ⟨-, hr, -⟩ := hserves <;> cases hr
  | read | nextLine | nextCall =>
    obtain ⟨-, rfl⟩ := hserves
    exact h

/-- **Step lemma** for the session. -/
theorem Shared.served (h : Shared g tr p) (hserving : p.opening = .serving) {i : Io} {r : i.Res}
    (hserves : p.serves i (.ready r) p') :
    Shared g (tr ++ [(.guest g, ⟨.io i, r⟩)]) p' := by
  have hbefore : p'.opening ≠ .serving →
      eventsOf (.guest g) (tr ++ [(.guest g, ⟨.io i, r⟩)]) = [] ∧ p'.got = [] :=
    fun hne => absurd ((serves_opening hserves).trans hserving) hne
  cases i with
  | readExact n =>
    obtain ⟨got, inbox, hpoll, rfl⟩ := hserves
    obtain ⟨hrx, new, hdelivered, htook⟩ := hpoll.took rfl h.rx
    refine ⟨hrx, h.tx, h.count, fun hon => ?_, ?_, hbefore⟩
    · -- what the call has taken off the port is what it returns and what is left in hand
      obtain ⟨hprior, hfails⟩ := readsOn_snoc hon
      cases r with
      | ok v =>
        obtain ⟨hgot, hv⟩ := htook
        show inbox.delivered = p.drained ++ readBy g _ ++ got
        rw [hdelivered, h.input hprior, readBy_snoc, hgot, List.append_nil,
          List.append_assoc _ p.got, ← hv, List.append_assoc p.drained]
        rfl
      | error e => exact absurd trivial hfails
    · show p.tx.world.accepted.flatten = _
      rw [writtenBy_snoc, h.output]
      exact (List.append_nil _).symm
  | writeAll bs =>
    have hread : readBy g (tr ++ [(.guest g, ⟨.io (.writeAll bs), r⟩)]) = readBy g tr := by
      rw [readBy_snoc]
      exact List.append_nil _
    have hinput : ReadsOn g (tr ++ [(.guest g, ⟨.io (.writeAll bs), r⟩)]) →
        p.rx.world.delivered =
          p.drained ++ readBy g (tr ++ [(.guest g, ⟨.io (.writeAll bs), r⟩)]) ++ p.got := by
      intro hon
      rw [hread]
      exact h.input (readsOn_snoc hon).1
    obtain ⟨hempty, hr, rfl⟩ | ⟨-, hr, rfl⟩ := hserves
    · cases hr
      refine ⟨h.rx, h.tx, h.count, hinput, ?_, hbefore⟩
      rw [writtenBy_snoc, h.output, hempty]
      exact (List.append_nil _).symm
    · refine ⟨h.rx, h.tx.pollWrite bs, h.count, hinput, ?_, hbefore⟩
      show (pollWrite bs p.tx.world).2.accepted.flatten = _
      rw [writtenBy_snoc, ← h.output]
      injection hr with hr
      -- a buffer is accepted as a whole, or refused when the thread has gone
      unfold pollWrite at hr ⊢
      split
      · rename_i hreceiver
        rw [if_pos hreceiver] at hr
        rw [hr]
        simp [Except.map, writtenIn]
      · rename_i hreceiver
        rw [if_neg hreceiver] at hr
        rw [hr]
        simp [Except.map, writtenIn]
  | read | nextLine | nextCall => cases hserves.1

/-- Steps of the session that are not on the port. -/
theorem Shared.aside (h : Shared g tr p) (hserving : p.opening = .serving) {e : Eff D} {r : e.Res}
    (he : ∀ i, e ≠ .io i) : Shared g (tr ++ [(.guest g, ⟨e, r⟩)]) p := by
  have hread : readIn (⟨e, r⟩ : Event (Eff.Res (D := D))) = [] := by
    cases e with
    | io i => exact absurd rfl (he i)
    | _ => rfl
  have hwritten : writtenIn (⟨e, r⟩ : Event (Eff.Res (D := D))) = [] := by
    cases e with
    | io i => exact absurd rfl (he i)
    | _ => rfl
  refine ⟨h.rx, h.tx, h.count, fun hon => ?_, ?_, fun hne => absurd hserving hne⟩
  · rw [readBy_snoc, hread, List.append_nil]
    exact h.input (readsOn_snoc hon).1
  · rw [writtenBy_snoc, hwritten, List.append_nil]
    exact h.output

/-- Steps of other tasks. -/
theorem Shared.other (h : Shared g tr p) {t : Tid} {ev : Event (Eff.Res (D := D))}
    (ht : t ≠ .guest g) : Shared g (tr ++ [(t, ev)]) p := by
  have hevents : eventsOf (.guest g) (tr ++ [(t, ev)]) = eventsOf (.guest g) tr :=
    eventsOf_snoc_ne _ _ _ _ ht
  refine ⟨h.rx, h.tx, h.count, ?_, ?_, ?_⟩
  · rw [ReadsOn, readBy, hevents]
    exact h.input
  · rw [writtenBy, hevents]
    exact h.output
  · rw [hevents]
    exact h.before

end shared

/-! ## Section 5: Runs -/

section runs

variable [VDisk D] [UnicodeTables] {g : Nat} {rest : Env D F N}

/-- The server with a session on a serial port. -/
abbrev serialSystem (g : Nat) (rest : Env D F N) :
    Runtime Tid (Eff D) Eff.Res (World D F (BlockingSerial × N)) Exit :=
  system ((serialParty g).beside rest)

/-- The session has begun when the drain was over. -/
theorem serving_of_started {ok : SysConfig D F (BlockingSerial × N) → SysLabel D → Prop}
    {w : World D F (BlockingSerial × N)} {c : SysConfig D F (BlockingSerial × N)}
    {tr : List (SysLabel D)} (hrun : Run (serialSystem g rest) ok (Config.initial w) tr c)
    (hlive : c.task (.guest g) ≠ .idle) : c.world.net.1.opening = .serving := by
  have hstart : ∀ t w, (serialParty g).own t →
      mayStart ((serialParty g).beside rest) t w →
        ((serialParty g).beside rest).connect t w.net := by
    rintro t w (rfl : t = .guest g) hmay
    exact hmay
  have hserves : ∀ i p r p', (serialParty g).serves i p r p' → (serialParty g).accepts p →
      (serialParty g).accepts p' := by
    intro i p r p' hserves haccepts
    exact (serves_opening hserves).trans haccepts
  have hkeeps : ∀ p p', (serialParty g).step p p' → (serialParty g).accepts p →
      (serialParty g).accepts p' := by
    rintro p p' (hstep | hstep) (haccepts : p.opening = .serving)
    · -- the drain takes no more steps
      exfalso
      cases hstep with
      | check _ _ h | read _ _ _ _ h | error _ _ _ _ h | pending _ _ _ h =>
        rw [haccepts] at h
        cases h
    · cases hstep <;> exact haccepts
  exact Party.accepts_of_started rfl rfl rfl hstart hserves hkeeps hrun
    (rfl : (serialParty g).own (.guest g)) hlive

/-- **Run lemma.** -/
theorem shared_run {ok : SysConfig D F (BlockingSerial × N) → SysLabel D → Prop} {s : Server D}
    {f : F} {net : N} {window now : Nat} {c : SysConfig D F (BlockingSerial × N)}
    {tr : List (SysLabel D)}
    (hrun : Run (serialSystem g rest) ok
      (Config.initial (World.initial s f (BlockingSerial.opened window now, net))) tr c) :
    Shared g tr c.world.net.1 := by
  refine Party.run_along (J := Shared g) rfl rfl (shared_opened g window now) ?_ ?_ hrun
  · intro tr c p' hrun h hstep
    cases hstep with
    | waits hown hlive hserves =>
      cases (hown : _ = Tid.guest g)
      exact h.waits (serving_of_started hrun hlive) hserves
    | step hstep => exact hstep.elim h.drain h.thread
    | other => exact h
  · intro tr c l c' hrun _ h hlabel
    generalize hp' : c'.world.net.1 = p' at hlabel ⊢
    generalize hp : c.world.net.1 = p at h hlabel
    cases hlabel with
    | served hown hlive hserves =>
      cases (hown : _ = Tid.guest g)
      exact h.served (hp ▸ serving_of_started hrun hlive) hserves
    | aside hown hlive hother =>
      cases (hown : _ = Tid.guest g)
      exact h.aside (hp ▸ serving_of_started hrun hlive) hother
    | other hown => exact h.other hown

/-- What holds of the port after a run. -/
structure SerialStream (g : Nat) (tr : List (SysLabel D)) (p : BlockingSerial) : Prop where
  /-- The number that `drain_serial` returns. -/
  count  : p.total = p.drained.length
  /-- The session does not begin before the drain is over. -/
  drain  : p.opening ≠ .serving → eventsOf (.guest g) tr = []
  /-- Nothing that the device delivers is lost, doubled or out of order. -/
  input  : ReadsOn g tr → p.drained ++ readBy g tr ++ p.got <+: p.rx.world.device
  /-- Nothing that the session writes is skipped, when the kernel stays
      failed. -/
  output : StaysFailed p.writes → p.tx.world.wire <+: writtenBy g tr

/-- **One byte stream in each direction.**  In every run of the server with a
    session on a serial port, whatever the device, the two threads, the clock
    and the other sessions do: what is drained and what the session reads are
    the first bytes of the device, and what the device gets are the first
    bytes that the session writes, as long as `libc::write` takes nothing any
    more once it has taken nothing.  A read of the session fails only after
    the device has ended, and with fewer bytes left than it asked for. -/
theorem serial_session (g : Nat) (rest : Env D F N)
    {ok : SysConfig D F (BlockingSerial × N) → SysLabel D → Prop} {s : Server D} {f : F} {net : N}
    (window now : Nat) {c : SysConfig D F (BlockingSerial × N)} {tr : List (SysLabel D)}
    (hrun : Run (serialSystem g rest) ok
      (Config.initial (World.initial s f (BlockingSerial.opened window now, net))) tr c) :
    SerialStream g tr c.world.net.1 ∧
    ∀ n e c', ReadsOn g tr →
      Step (serialSystem g rest) c (some (.guest g, ⟨.io (.readExact n), .error e⟩)) c' →
      e = unexpectedEof ∧ DeviceEnded c'.world.net.1 ∧ ∃ left, left.length < n ∧
        c'.world.net.1.rx.world.device = c.world.net.1.drained ++ readBy g tr ++ left := by
  have hshared := shared_run hrun
  refine ⟨⟨hshared.count, fun hne => (hshared.before hne).1, fun hon => ?_, fun hstays => ?_⟩, ?_⟩
  · rw [← hshared.input hon]
    exact hshared.rx.delivered
  · rw [← hshared.output]
    exact hshared.tx.wire hstays
  · intro n e c' hon hstep
    -- the failing read, as a step of the port
    have hlabel := Party.labelled_step rfl hstep
    generalize c'.world.net.1 = p' at hlabel ⊢
    generalize c.world.net.1 = p at hshared hlabel ⊢
    cases hlabel with
    | served _ _ hserves =>
      obtain ⟨got, inbox, hpoll, rfl⟩ := hserves
      obtain ⟨hrx, new, hdelivered, -, hfew, heof, hall, hclosed⟩ := hpoll.took rfl hshared.rx
      obtain ⟨hleft, hlast⟩ := hrx.ended hclosed
      refine ⟨heof, ⟨hclosed, hleft, hlast⟩, p.got ++ new, hfew, ?_⟩
      show inbox.device = _
      rw [← hall, hdelivered, hshared.input hon, List.append_assoc _ p.got]
    | aside _ _ hother => exact absurd rfl (hother _)
    | other hown => exact absurd rfl hown

end runs

/-! ## Section 6: A session after stale bytes -/

/-- A run of the reader thread takes place beside the session. -/
theorem run_reader {D F N : Type} {disk : VDisk D} {tables : UnicodeTables} {g : Nat}
    {rest : Env D F N} {ok : SysConfig D F (BlockingSerial × N) → SysLabel D → Prop}
    {cfg : SysConfig D F (BlockingSerial × N)} {p : BlockingSerial} {net : N} {rx : InboxConfig}
    {tr : List InboxLabel} (hrun : Run reader.alone anyStep p.rx tr rx) :
    Run (@serialSystem D F N disk tables g rest) ok (withNet cfg (p, net)) []
      (withNet cfg ({ p with
        rx    := rx
        reads := p.reads ++ tr.flatMap fun l => readResult l.2 }, net)) := by
  -- a step of the thread is a step of the peers alone
  have hstep : ∀ (reads : List Int) {rx rx' l}, Step reader.alone rx l rx' →
      Step (@serialSystem D F N disk tables g rest)
        (withNet cfg ({ p with rx := rx, reads := reads }, net)) none
        (withNet cfg ({ p with
          rx    := rx'
          reads := reads ++ l.toList.flatMap fun l => readResult l.2 }, net)) := by
    intro reads rx rx' l h
    have hthread := ThreadStep.reader { p with rx := rx, reads := reads } l rx' h
    have hnet : ((serialParty g).beside rest).netStep ({ p with rx := rx, reads := reads }, net)
        ({ p with
          rx    := rx'
          reads := reads ++ l.toList.flatMap fun l => readResult l.2 }, net) :=
      .inl ⟨.inr hthread, rfl⟩
    exact .ambient _ ⟨_, hnet, rfl⟩
  induction hrun with
  | refl =>
    rw [List.flatMap_nil, List.append_nil]
    exact .refl _
  | @silent tr _ _ _ h ih =>
    have hnext := hstep (p.reads ++ tr.flatMap fun l => readResult l.2) h
    rw [Option.toList_none, List.flatMap_nil, List.append_nil] at hnext
    exact ih.silent hnext
  | @act tr _ _ l _ _ h ih =>
    have hnext := hstep (p.reads ++ tr.flatMap fun l => readResult l.2) h
    rw [Option.toList_some, List.append_assoc, ← List.flatMap_append] at hnext
    exact ih.silent hnext

/-- A device that delivers the byte `b`, `n` times at once. -/
def delivering (n : Nat) (b : UInt8) : Unit → (e : ReaderEff) → Inbox → Poll e.Res × Inbox
  | _, .read, p =>
    (.ready ((n : Int), Vector.replicate readerBuf b),
      { p with device := p.device ++ (Vector.replicate readerBuf b).toList.take n })
  | _, .send chunk, p =>
    if p.stream then
      (.ready true, { p with queue := p.queue ++ [chunk], received := p.received ++ chunk })
    else (.ready false, p)
  | _, .close, p => (.ready (), p)

theorem delivering_poll {n : Nat} (hn : n ≤ readerBuf) (b : UInt8) (t : Unit) (e : ReaderEff)
    (p : Inbox) : reader.alone.poll t e p (delivering n b t e p).1 (delivering n b t e p).2 := by
  cases e with
  | read =>
    show readerPoll .read p _ _
    refine .inr ⟨n, Vector.replicate readerBuf b, by omega, rfl, ?_⟩
    rfl
  | send chunk =>
    show readerPoll (.send chunk) p _ _
    by_cases hstream : p.stream = true
    · rw [delivering, if_pos hstream]
      exact .inl ⟨hstream, rfl, rfl⟩
    · rw [delivering, if_neg hstream]
      exact .inr ⟨by simpa using hstream, rfl, rfl⟩
  | close => exact ⟨rfl, rfl⟩

/-- The thread takes `k` turns. -/
def readerTurns (n : Nat) (b : UInt8) (rx : InboxConfig) (k : Nat) : InboxConfig :=
  schedule reader.alone (delivering n b) (fun _ _ => true) rx (List.replicate k ())

def readerLabels (n : Nat) (b : UInt8) (rx : InboxConfig) (k : Nat) : List InboxLabel :=
  scheduleLabels reader.alone (delivering n b) (fun _ _ => true) rx (List.replicate k ())

theorem readerTurns_run {n : Nat} (hn : n ≤ readerBuf) (b : UInt8) (rx : InboxConfig) (k : Nat) :
    Run reader.alone anyStep rx (readerLabels n b rx k) (readerTurns n b rx k) :=
  run_schedule (delivering_poll hn b) (fun _ _ _ => trivial) rx _ (scheduleMeets_any _ _)

abbrev StaleConfig : Type := SysConfig Unit Unit (BlockingSerial × (Tid → Peer))

def staleStart : StaleConfig :=
  Config.initial (World.initial (Server.new Unit) ()
    (BlockingSerial.opened 5 0, fun _ => .sending []))

abbrev staleSystem : Runtime Tid (Eff Unit) Eff.Res
    (World Unit Unit (BlockingSerial × (Tid → Peer))) Exit :=
  @serialSystem Unit Unit (Tid → Peer) noDisk asciiTables 0 scripted

/-- The port, with scripted peers of the other sessions. -/
def staleAt (p : BlockingSerial) : StaleConfig := withNet staleStart (p, fun _ => .sending [])

theorem staleAt_step {p p' : BlockingSerial} (h : DrainStep p p' ∨ ThreadStep p p') :
    Step staleSystem (staleAt p) none (staleAt p') := by
  have hnet : ((serialParty 0).beside scripted).netStep (p, fun _ => .sending [])
      (p', fun _ => .sending []) := .inl ⟨h, rfl⟩
  exact .ambient _ ⟨_, hnet, rfl⟩

/-- Three stale bytes are in the channel, and the drain reads. -/
def stale : BlockingSerial :=
  { BlockingSerial.opened 5 0 with
    rx      := readerTurns 3 0x52 (BlockingSerial.opened 5 0).rx 4
    reads   := [3]
    opening := .reading 5 5 }

/-- They have been read, and the time is over. -/
def drainedPort : BlockingSerial :=
  { stale.polled drainBuf true with
    now     := 5
    total   := 3
    drained := [0x52, 0x52, 0x52]
    opening := .serving }

/-- One opcode is in the channel. -/
def opcodePort : BlockingSerial :=
  { drainedPort with rx := readerTurns 1 0x00 drainedPort.rx 3, reads := [3, 1] }

/-- The session has read it. -/
def servedPort : BlockingSerial := { opcodePort.polled 1 true with got := [] }

/-- The drain is over, and an opcode has arrived. -/
theorem stale_run : Run staleSystem anyStep staleStart [] (staleAt opcodePort) := by
  have hstale : Run staleSystem anyStep (staleAt (BlockingSerial.opened 5 0)) [] (staleAt
      { BlockingSerial.opened 5 0 with
        rx    := readerTurns 3 0x52 (BlockingSerial.opened 5 0).rx 4
        reads := [3] }) :=
    run_reader (readerTurns_run (n := 3) (by decide) 0x52 (BlockingSerial.opened 5 0).rx 4)
  have hcheck := hstale.silent (staleAt_step (.inl (.check _ 5 0 rfl le_rfl)))
  have hread := hcheck.silent (staleAt_step (.inl (.read _ 5 5 true [0x52, 0x52, 0x52] rfl rfl)))
  have htick := hread.silent (staleAt_step (.inr (.tick _ 5 (Nat.zero_le _))))
  have hover : Run staleSystem anyStep staleStart [] (staleAt drainedPort) :=
    htick.silent (staleAt_step (.inl (.check _ 5 5 rfl le_rfl)))
  have harrived : Run staleSystem anyStep (staleAt drainedPort) [] (staleAt opcodePort) :=
    run_reader (readerTurns_run (n := 1) (by decide) 0x00 drainedPort.rx 3)
  exact hover.trans harrived

/-- The session has begun. -/
def staleLive : StaleConfig :=
  (staleAt opcodePort).put (.guest 0) (.live (staleSystem.body (.guest 0)))
    (staleAt opcodePort).world

/-- The step in which the opcode is read. -/
abbrev opcodeRead : SysLabel Unit :=
  (.guest 0, ⟨.io (.readExact 1), .ok (Vector.replicate 1 0x00)⟩)

/-- After the stale bytes the session reads the opcode. -/
theorem serial_session_stale : ∃ c, Run staleSystem anyStep staleStart [opcodeRead] c ∧
    c.world.net.1.drained = [0x52, 0x52, 0x52] ∧ readBy 0 [opcodeRead] = [0x00] ∧
    SerialStream 0 [opcodeRead] c.world.net.1 := by
  have hconnect : ((serialParty 0).beside scripted).connect (.guest 0)
      (staleAt opcodePort).world.net := .inl ⟨rfl, rfl⟩
  have hstart : Step staleSystem (staleAt opcodePort) none staleLive :=
    .start (Tid.guest 0) rfl hconnect
  have hpoll : PollExact 1 [] opcodePort.rx.world (.ready (.ok (Vector.replicate 1 0x00))) []
      servedPort.rx.world :=
    .more [] _ true [0x00] _ _ _ (by decide) (by decide) rfl (.full (Vector.replicate 1 0x00) _)
  have hserves : ((serialParty 0).beside scripted).net (.guest 0) (.readExact 1)
      staleLive.world.net (.ready (.ok (Vector.replicate 1 0x00)))
      (servedPort, fun _ => .sending []) :=
    .inl ⟨rfl, ⟨[], servedPort.rx.world, hpoll, rfl⟩, rfl⟩
  have hread : Step staleSystem staleLive (some opcodeRead) _ :=
    Step.ready (Tid.guest 0) (Eff.io (.readExact 1)) _ _
      (staleAt servedPort).world (Config.put_self ..) ⟨_, hserves, rfl⟩
  have hrun := (stale_run.silent hstart).act opcodeRead trivial hread
  exact ⟨_, hrun, rfl, rfl, (@serial_session Unit Unit (Tid → Peer) noDisk asciiTables 0 scripted
    anyStep (Server.new Unit) () (fun _ => .sending []) 5 0 _ _ hrun).1⟩

end Serial

end DriveWire
