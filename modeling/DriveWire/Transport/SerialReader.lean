import DriveWire.Transport.SerialWriter

/-! # The Serial Reader

    The thread of `reader_loop` sends what the device delivers, in chunks of
    at most 256 bytes, through a channel to `BlockingSerial::poll_read`.  The
    caller's buffers have other sizes, so what a buffer has no room for waits
    in `leftover`.  The bytes that the caller gets are the bytes of the
    device, and the end of the stream is reported after the last of them. -/

namespace DriveWire

open Async

namespace Serial

/-! ## Section 1: The reading side of a port -/

/-- A call of `poll_read`: the room in the buffer, and the result with the
    bytes that were put there. -/
structure ReadCall where
  remaining : Nat
  result    : Poll (Except IoError (List UInt8))

/-- The state that the two threads share, with a record of what the device
    has delivered, what was sent, and the calls of `poll_read`. -/
structure Inbox where
  /-- The chunks in the `mpsc` channel. -/
  queue    : List (List UInt8)
  /-- The reader thread has its sender. -/
  sender   : Bool
  /-- The `BlockingSerial` with its receiver exists. -/
  stream   : Bool
  leftover : List UInt8
  /-- The bytes that the kernel has returned to the reader thread. -/
  device   : List UInt8
  /-- The bytes that the reader thread has sent. -/
  received : List UInt8
  /-- The bytes that `poll_read` has put into buffers. -/
  delivered : List UInt8
  calls    : List ReadCall

/-- The port as `open` leaves it. -/
def Inbox.new : Inbox := ⟨[], true, true, [], [], [], [], []⟩

/-- `poll_recv`: queued chunks come before the end of the channel.  A channel
    that is not `ready` lets the caller wait. -/
def pollRecv (ready : Bool) (p : Inbox) : Poll (Option (List UInt8)) × Inbox :=
  if ready then
    match p.queue with
    | chunk :: rest => (.ready (some chunk), { p with queue := rest })
    | [] => if p.sender then (.pending, p) else (.ready none, p)
  else (.pending, p)

def unexpectedEof : IoError := ⟨.unexpectedEof, str "unexpected end of file"⟩

/-- `poll_read` on a buffer with room for `remaining` bytes. -/
def pollRead (remaining : Nat) (ready : Bool) (p : Inbox) :
    Poll (Except IoError (List UInt8)) × Inbox :=
  if p.leftover ≠ [] then
    let n := min p.leftover.length remaining
    (.ready (.ok (p.leftover.take n)), { p with leftover := p.leftover.drop n })
  else
    match pollRecv ready p with
    | (.ready (some chunk), p) =>
      let n := min chunk.length remaining
      (.ready (.ok (chunk.take n)),
        if n < chunk.length then { p with leftover := p.leftover ++ chunk.drop n } else p)
    | (.ready none, p) => (.ready (.error unexpectedEof), p)
    | (.pending, p) => (.pending, p)

/-- The bytes a call has put into its buffer. -/
def ReadCall.bytes (c : ReadCall) : List UInt8 :=
  match c.result with
  | .ready (.ok bs) => bs
  | _ => []

/-- The state `p'` after a call `c` in the state `p`, with the call recorded. -/
def Inbox.record (p p' : Inbox) (c : ReadCall) : Inbox :=
  { p' with delivered := p.delivered ++ c.bytes, calls := p.calls ++ [c] }

/-- A call of `poll_read`, recorded. -/
def Inbox.poll (p : Inbox) (remaining : Nat) (ready : Bool) : Inbox :=
  p.record (pollRead remaining ready p).2 ⟨remaining, (pollRead remaining ready p).1⟩

/-! ## Section 2: The thread -/

/-- The size of the buffer of `reader_loop`. -/
def readerBuf : Nat := 256

inductive ReaderEff where
  /-- `libc::read` into the buffer. -/
  | read  : ReaderEff
  | send  : List UInt8 → ReaderEff
  | close : ReaderEff

@[reducible] def ReaderEff.Res : ReaderEff → Type
  | .read => Int × Vector UInt8 readerBuf
  | .send _ => Bool
  | .close => Unit

/-- One iteration of `reader_loop`. -/
def readerOnce : Prog ReaderEff ReaderEff.Res (Flow Unit) :=
  .eff .read fun (n, buf) =>
    if n < 0 then .eff .close fun _ => .ret (.done ())
    else if n = 0 then .eff .close fun _ => .ret (.done ())
    else .eff (.send (buf.toList.take n.toNat)) fun (sent : Bool) =>
      if sent then .ret .again else .eff .close fun _ => .ret (.done ())

/-- What the kernel and the channel answer.  A blocking call need not return. -/
def readerPoll : (e : ReaderEff) → Inbox → Poll e.Res → Inbox → Prop
  | .read, p, r, p' =>
    (r = .pending ∧ p' = p) ∨
    ∃ (n : Int) (buf : Vector UInt8 readerBuf), n ≤ readerBuf ∧ r = .ready (n, buf) ∧
      p' = { p with device := p.device ++ buf.toList.take n.toNat }
  | .send chunk, p, r, p' =>
    (p.stream = true ∧ r = .ready true ∧
      p' = { p with queue := p.queue ++ [chunk], received := p.received ++ chunk }) ∨
    (p.stream = false ∧ r = .ready false ∧ p' = p)
  | .close, p, r, p' => r = .ready () ∧ p' = p

/-- The thread, and the calls of `poll_read` that come at any time as long as
    the `BlockingSerial` exists. -/
def reader : Runtime Unit ReaderEff ReaderEff.Res Inbox Unit where
  body     := fun _ => readerOnce
  poll     := fun _ => readerPoll
  mayStart := fun _ _ => True
  atExit   := fun _ p => { p with sender := false }
  ambient  := fun p p' =>
    p.stream = true ∧ ((∃ remaining ready, p' = p.poll remaining ready) ∨
      p' = { p with stream := false })

abbrev InboxConfig : Type := Config Unit ReaderEff ReaderEff.Res Inbox Unit

abbrev InboxLabel : Type := Label Unit (E := ReaderEff) ReaderEff.Res

/-! ## Section 3: The chunk in hand -/

/-- The reader thread: a chunk that was read and not sent yet, or finished. -/
inductive Hand where
  | holds    : List UInt8 → Hand
  | finished : Hand

def Hand.bytes : Hand → List UInt8
  | holds chunk => chunk
  | finished => []

/-- A chunk is sent after each successful read, and is not empty. -/
def hands : Protocol ReaderEff ReaderEff.Res Hand where
  allows := fun hand e =>
    match e with
    | .read => hand = .holds []
    | .send chunk => hand = .holds chunk ∧ chunk ≠ []
    | .close => True
  admits := fun _ _ _ => True
  next := fun hand e =>
    match e with
    | .read => fun (n, buf) => .holds (buf.toList.take n.toNat)
    | .send _ => fun _ => .holds []
    | .close => fun _ => hand

theorem readerOnce_hands :
    readerOnce.Obeys hands (.holds []) (fun _ hand => hand = .holds []) := by
  refine ⟨rfl, fun (n, buf) _ => ?_⟩
  have hnext : hands.next (.holds []) .read (n, buf) = .holds (buf.toList.take n.toNat) := rfl
  have hnone : n.toNat = 0 → hands.next (.holds []) .read (n, buf) = .holds [] := by
    intro hn
    rw [hnext, hn, List.take_zero]
  by_cases hneg : n < 0
  · simp only [if_pos hneg]
    exact ⟨trivial, fun _ _ => hnone (by omega)⟩
  by_cases hzero : n = 0
  · simp only [if_neg hneg, if_pos hzero]
    exact ⟨trivial, fun _ _ => hnone (by omega)⟩
  simp only [if_neg hneg, if_neg hzero]
  refine ⟨⟨hnext, ?_⟩, fun sent _ => ?_⟩
  · rw [ne_eq, ← List.length_eq_zero_iff, List.length_take, buf.length_toList, readerBuf]
    omega
  · cases sent with
    | true => exact rfl
    | false => exact ⟨trivial, fun _ _ => rfl⟩

def handDiscipline : Discipline reader Hand where
  toProtocol := hands
  off        := .holds []
  gone       := .finished
  enter      := fun _ => .holds []
  leave      := fun _ _ hand => hand = .holds []
  body_obeys := fun _ => readerOnce_hands

/-! ## Section 4: A faithful stream -/

/-- What `poll_read` has promised its caller. -/
structure Kept (p : Inbox) : Prop where
  /-- Success on a buffer with room means at least one byte. -/
  progress : ∀ c ∈ p.calls, ∀ bs, c.result = .ready (.ok bs) → 0 < c.remaining → bs ≠ []
  /-- No buffer is overrun. -/
  fits : ∀ c ∈ p.calls, c.bytes.length ≤ c.remaining
  /-- The end is reported after the last byte. -/
  atEnd : ∀ c ∈ p.calls, ∀ e, c.result = .ready (.error e) →
    e = unexpectedEof ∧ p.sender = false ∧ p.delivered = p.device
  concat : p.delivered = p.calls.flatMap ReadCall.bytes

/-- Every byte that the device has delivered is in its place. -/
structure Faithful (hand : Hand) (p : Inbox) : Prop where
  bytes : p.stream = true → p.delivered ++ (p.leftover ++ p.queue.flatten) = p.received
  sent  : p.stream = true → p.received ++ hand.bytes = p.device
  chunk : ∀ chunk ∈ p.queue, chunk ≠ []
  ended : p.sender = false → hand = .finished
  kept  : Kept p

/-- What a call of `poll_read` does, case by case. -/
inductive Answers (remaining : Nat) (p : Inbox) :
    Poll (Except IoError (List UInt8)) → Inbox → Prop where
  | leftover : p.leftover ≠ [] →
      Answers remaining p (.ready (.ok (p.leftover.take remaining)))
        { p with leftover := p.leftover.drop remaining }
  | chunk : ∀ {chunk rest}, p.leftover = [] → p.queue = chunk :: rest →
      Answers remaining p (.ready (.ok (chunk.take remaining)))
        { p with queue := rest, leftover := chunk.drop remaining }
  | closed : p.leftover = [] → p.queue = [] → p.sender = false →
      Answers remaining p (.ready (.error unexpectedEof)) p
  | pending : p.leftover = [] → Answers remaining p .pending p

theorem take_min_length (bs : List UInt8) (n : Nat) : bs.take (min bs.length n) = bs.take n := by
  rw [Nat.min_comm, ← List.take_eq_take_min]

theorem drop_min_length (bs : List UInt8) (n : Nat) : bs.drop (min bs.length n) = bs.drop n := by
  rw [Nat.min_comm, ← List.drop_eq_drop_min]

theorem pollRead_answers (remaining : Nat) (ready : Bool) (p : Inbox) :
    Answers remaining p (pollRead remaining ready p).1 (pollRead remaining ready p).2 := by
  by_cases hleft : p.leftover = []
  · rw [pollRead, if_neg (not_not.mpr hleft), pollRecv]
    cases ready with
    | false => exact .pending hleft
    | true =>
      cases hqueue : p.queue with
      | nil =>
        cases hsender : p.sender with
        | true => simpa [hqueue, hsender] using Answers.pending hleft
        | false => simpa [hqueue, hsender] using Answers.closed hleft hqueue hsender
      | cons chunk rest =>
        have hanswer : Answers remaining p _ _ := .chunk hleft hqueue
        by_cases hlt : min chunk.length remaining < chunk.length
        · simpa [hleft, hlt, take_min_length, drop_min_length] using hanswer
        · have hall : chunk.drop remaining = [] := List.drop_of_length_le (by omega)
          rw [hall, ← hleft] at hanswer
          simpa [hlt, take_min_length] using hanswer
  · rw [pollRead, if_pos hleft]
    show Answers remaining p (.ready (.ok (p.leftover.take (min p.leftover.length remaining))))
      { p with leftover := p.leftover.drop (min p.leftover.length remaining) }
    rw [take_min_length, drop_min_length]
    exact .leftover hleft

theorem Kept.congr {p p' : Inbox} (h : Kept p) (hsender : p'.sender = p.sender)
    (hdevice : p'.device = p.device) (hdelivered : p'.delivered = p.delivered)
    (hcalls : p'.calls = p.calls) : Kept p' := by
  refine ⟨?_, ?_, ?_, ?_⟩
  · rw [hcalls]
    exact h.progress
  · rw [hcalls]
    exact h.fits
  · rw [hcalls, hsender, hdelivered, hdevice]
    exact h.atEnd
  · rw [hdelivered, hcalls]
    exact h.concat

/-- One more call keeps the promises. -/
theorem Kept.record {p p' : Inbox} {c : ReadCall} (h : Kept p) (hsender : p'.sender = p.sender)
    (hdevice : p'.device = p.device)
    (hprogress : ∀ bs, c.result = .ready (.ok bs) → 0 < c.remaining → bs ≠ [])
    (hfits : c.bytes.length ≤ c.remaining)
    (hatEnd : ∀ e, c.result = .ready (.error e) →
      e = unexpectedEof ∧ p.sender = false ∧ p.delivered = p.device)
    (hlast : p.delivered = p.device → c.bytes = []) : Kept (p.record p' c) := by
  have hcalls : ∀ c' ∈ (p.record p' c).calls, c' ∈ p.calls ∨ c' = c := by
    intro c' hc'
    simpa [Inbox.record] using hc'
  refine ⟨fun c' hc' => ?_, fun c' hc' => ?_, fun c' hc' e he => ?_, ?_⟩
  · rcases hcalls c' hc' with hold | rfl
    · exact h.progress c' hold
    · exact hprogress
  · rcases hcalls c' hc' with hold | rfl
    · exact h.fits c' hold
    · exact hfits
  · -- an error, old or new, means that everything had been delivered: the call adds nothing
    have hended : e = unexpectedEof ∧ p.sender = false ∧ p.delivered = p.device := by
      rcases hcalls c' hc' with hold | rfl
      · exact h.atEnd c' hold e he
      · exact hatEnd e he
    obtain ⟨heof, hclosed, hall⟩ := hended
    refine ⟨heof, hsender.trans hclosed, ?_⟩
    show p.delivered ++ c.bytes = p'.device
    rw [hlast hall, List.append_nil, hall, hdevice]
  · show p.delivered ++ c.bytes = (p.calls ++ [c]).flatMap ReadCall.bytes
    rw [List.flatMap_append, ← h.concat]
    simp

/-- While the thread runs no end has been reported. -/
theorem Kept.grow {p : Inbox} (h : Kept p) (hrunning : p.sender ≠ false) (more : List UInt8) :
    Kept { p with device := p.device ++ more } where
  progress := h.progress
  fits     := h.fits
  atEnd    := fun c hc e he => absurd (h.atEnd c hc e he).2.1 hrunning
  concat   := h.concat

theorem Kept.finish {p : Inbox} (h : Kept p) : Kept { p with sender := false } where
  progress := h.progress
  fits     := h.fits
  atEnd    := fun c hc e he => by
    obtain ⟨heof, -, hall⟩ := h.atEnd c hc e he
    exact ⟨heof, rfl, hall⟩
  concat   := h.concat

theorem take_ne_nil {bs : List UInt8} (h : bs ≠ []) {n : Nat} (hn : 0 < n) : bs.take n ≠ [] := by
  intro hnil
  rcases List.take_eq_nil_iff.mp hnil with hzero | hempty
  · omega
  · exact h hempty

/-- A call of `poll_read` keeps every byte in its place. -/
theorem Faithful.poll {hand : Hand} {p : Inbox} (h : Faithful hand p) (hstream : p.stream = true)
    (remaining : Nat) (ready : Bool) : Faithful hand (p.poll remaining ready) := by
  have hanswer := pollRead_answers remaining ready p
  rw [Inbox.poll]
  generalize (pollRead remaining ready p).1 = result at hanswer ⊢
  generalize (pollRead remaining ready p).2 = p' at hanswer ⊢
  have hbytes := h.bytes hstream
  have hsent := h.sent hstream
  -- once all is delivered, nothing is left to be put into a buffer
  have hlast : p.delivered = p.device → p.leftover ++ p.queue.flatten = [] := by
    intro hall
    have hlen := congrArg List.length hbytes
    have hlen' := congrArg List.length hsent
    rw [hall, List.length_append] at hlen
    rw [List.length_append] at hlen'
    exact List.eq_nil_of_length_eq_zero (by omega)
  cases hanswer with
  | leftover hleft =>
    refine ⟨fun _ => ?_, h.sent, h.chunk, h.ended, h.kept.record rfl rfl ?_ ?_ ?_ ?_⟩
    · show p.delivered ++ p.leftover.take remaining ++
        (p.leftover.drop remaining ++ p.queue.flatten) = p.received
      rw [← hbytes, List.append_assoc, ← List.append_assoc (p.leftover.take remaining),
        List.take_append_drop]
    · intro bs hbs hroom
      cases hbs
      exact take_ne_nil hleft hroom
    · exact List.length_take_le _ _
    · intro e he
      cases he
    · intro hall
      exact absurd (List.append_eq_nil_iff.mp (hlast hall)).1 hleft
  | @chunk chunk rest hleft hqueue =>
    have hchunk : chunk ≠ [] := h.chunk chunk (by rw [hqueue]; exact List.mem_cons_self)
    refine ⟨fun _ => ?_, h.sent, fun c hc => ?_, h.ended, h.kept.record rfl rfl ?_ ?_ ?_ ?_⟩
    · show p.delivered ++ chunk.take remaining ++ (chunk.drop remaining ++ rest.flatten) =
        p.received
      rw [← hbytes, hleft, hqueue, List.flatten_cons, List.nil_append, List.append_assoc,
        ← List.append_assoc (chunk.take remaining), List.take_append_drop]
    · exact h.chunk c (by rw [hqueue]; exact List.mem_cons_of_mem _ hc)
    · intro bs hbs hroom
      cases hbs
      exact take_ne_nil hchunk hroom
    · exact List.length_take_le _ _
    · intro e he
      cases he
    · intro hall
      have hnone := hlast hall
      rw [hleft, hqueue, List.flatten_cons, List.nil_append] at hnone
      exact absurd (List.append_eq_nil_iff.mp hnone).1 hchunk
  | closed hleft hqueue hclosed =>
    -- the thread has finished, and the channel is empty
    have hall : p.delivered = p.device := by
      rw [h.ended hclosed] at hsent
      rw [← hsent, ← hbytes, hleft, hqueue]
      simp [Hand.bytes]
    refine ⟨fun _ => ?_, h.sent, h.chunk, h.ended, h.kept.record rfl rfl ?_ ?_ ?_ ?_⟩
    · show p.delivered ++ [] ++ (p.leftover ++ p.queue.flatten) = p.received
      rwa [List.append_nil]
    · intro bs hbs
      cases hbs
    · exact Nat.zero_le _
    · intro e he
      cases he
      exact ⟨rfl, hclosed, hall⟩
    · exact fun _ => rfl
  | pending hleft =>
    refine ⟨fun _ => ?_, h.sent, h.chunk, h.ended, h.kept.record rfl rfl ?_ ?_ ?_ ?_⟩
    · show p.delivered ++ [] ++ (p.leftover ++ p.queue.flatten) = p.received
      rwa [List.append_nil]
    · intro bs hbs
      cases hbs
    · exact Nat.zero_le _
    · intro e he
      cases he
    · exact fun _ => rfl

theorem Faithful.running {chunk : List UInt8} {p : Inbox} (h : Faithful (.holds chunk) p) :
    p.sender ≠ false := by
  intro hclosed
  cases h.ended hclosed

/-- The thread has read a chunk. -/
theorem Faithful.read {p : Inbox} (h : Faithful (.holds []) p) (chunk : List UInt8) :
    Faithful (.holds chunk) { p with device := p.device ++ chunk } where
  bytes := h.bytes
  sent  := by
    intro hstream
    have hsent := h.sent hstream
    rw [Hand.bytes, List.append_nil] at hsent
    show p.received ++ chunk = p.device ++ chunk
    rw [hsent]
  chunk := h.chunk
  ended := fun hclosed => absurd hclosed h.running
  kept  := h.kept.grow h.running chunk

/-- The thread sends the chunk in its hand. -/
theorem Faithful.send {chunk : List UInt8} {p : Inbox} (h : Faithful (.holds chunk) p)
    (hchunk : chunk ≠ []) (hstream : p.stream = true) :
    Faithful (.holds [])
      { p with queue := p.queue ++ [chunk], received := p.received ++ chunk } where
  bytes := by
    intro _
    show p.delivered ++ (p.leftover ++ (p.queue ++ [chunk]).flatten) = p.received ++ chunk
    rw [List.flatten_append, ← List.append_assoc p.leftover, ← List.append_assoc, h.bytes hstream]
    simp
  sent  := by
    intro _
    show p.received ++ chunk ++ [] = p.device
    rw [List.append_nil]
    exact h.sent hstream
  chunk := by
    intro c hc
    rcases List.mem_append.mp hc with hold | hnew
    · exact h.chunk c hold
    · rwa [List.mem_singleton.mp hnew]
  ended := fun hclosed => absurd hclosed h.running
  kept  := h.kept.congr rfl rfl rfl rfl

/-- The receiver is gone, and the chunk with it. -/
theorem Faithful.discard {chunk : List UInt8} {p : Inbox} (h : Faithful (.holds chunk) p)
    (hstream : p.stream = false) : Faithful (.holds []) p where
  bytes := fun h => by rw [hstream] at h; cases h
  sent  := fun h => by rw [hstream] at h; cases h
  chunk := h.chunk
  ended := fun hclosed => absurd hclosed h.running
  kept  := h.kept

theorem Faithful.finish {p : Inbox} (h : Faithful (.holds []) p) :
    Faithful .finished { p with sender := false } where
  bytes := h.bytes
  sent  := h.sent
  chunk := h.chunk
  ended := fun _ => rfl
  kept  := h.kept.finish

/-- The `BlockingSerial` is dropped. -/
theorem Faithful.dropped {hand : Hand} {p : Inbox} (h : Faithful hand p) :
    Faithful hand { p with stream := false } where
  bytes := fun h => by cases h
  sent  := fun h => by cases h
  chunk := h.chunk
  ended := h.ended
  kept  := h.kept.congr rfl rfl rfl rfl

/-! ## Section 5: Runs -/

theorem handDiscipline_keeps :
    handDiscipline.Keeps anyStep (fun g p => Faithful (g ()) p) where
  start := by
    intro g p t hg hoff _
    have hoff : g () = .holds [] := hoff
    show Faithful (Function.update g () (.holds []) ()) p
    rwa [Function.update_self, ← hoff]
  again := by
    intro g p t hg hleave
    have hleave : g () = .holds [] := hleave
    show Faithful (Function.update g () (.holds []) ()) p
    rwa [Function.update_self, ← hleave]
  exit := by
    intro g p t x hg hleave
    have hleave : g () = .holds [] := hleave
    show Faithful (Function.update g () .finished ()) _
    rw [Function.update_self]
    rw [hleave] at hg
    exact hg.finish
  pending := by
    intro g p t e p' hg _ hpoll
    cases e with
    | read =>
      obtain ⟨-, rfl⟩ | ⟨_, _, _, hr, -⟩ := hpoll
      · exact hg
      · cases hr
    | send chunk =>
      obtain ⟨-, hr, -⟩ | ⟨-, hr, -⟩ := hpoll
      · cases hr
      · cases hr
    | close => cases hpoll.1
  ready := by
    intro c g t e k r p' hg _ _ hallow _ hpoll
    refine ⟨trivial, ?_⟩
    rw [Function.update_self]
    -- a chunk passes from the kernel into the hand, and from there into the channel
    cases e with
    | read =>
      have hhand : g () = .holds [] := hallow
      rw [hhand] at hg
      obtain ⟨hr, -⟩ | ⟨n, buf, -, hr, rfl⟩ := hpoll
      · cases hr
      · cases hr
        exact hg.read _
    | send chunk =>
      obtain ⟨hhand, hchunk⟩ : g () = .holds chunk ∧ chunk ≠ [] := hallow
      rw [hhand] at hg
      obtain ⟨hstream, hr, rfl⟩ | ⟨hstream, hr, rfl⟩ := hpoll
      · cases hr
        exact hg.send hchunk hstream
      · cases hr
        exact hg.discard hstream
    | close =>
      obtain ⟨-, rfl⟩ := hpoll
      exact hg
  ambient := by
    intro g p p' hg hw
    obtain ⟨hstream, ⟨remaining, ready, rfl⟩ | rfl⟩ := hw
    · exact hg.poll hstream remaining ready
    · exact hg.dropped

/-- What a caller of `poll_read` can rely on. -/
def FaithfulStream (p : Inbox) : Prop :=
  (p.stream = true → p.delivered ++ (p.leftover ++ p.queue.flatten) = p.received ∧
    p.received <+: p.device) ∧
  p.delivered = p.calls.flatMap ReadCall.bytes ∧
  (∀ c ∈ p.calls, c.bytes.length ≤ c.remaining) ∧
  (∀ c ∈ p.calls, ∀ bs, c.result = .ready (.ok bs) → 0 < c.remaining → bs ≠ []) ∧
  ∀ c ∈ p.calls, ∀ e, c.result = .ready (.error e) →
    e = unexpectedEof ∧ p.delivered = p.device

/-- **The serial reader is a faithful byte stream**, in every interleaving of
    the thread with calls of `poll_read` on buffers of any size. -/
theorem faithful_stream {c : InboxConfig} {tr : List InboxLabel}
    (hrun : Run reader anyStep (Config.initial Inbox.new) tr c) : FaithfulStream c.world := by
  have hinit : Faithful (.holds []) Inbox.new :=
    ⟨fun _ => rfl, fun _ => rfl, by simp [Inbox.new], fun h => (by cases h),
      ⟨by simp [Inbox.new], by simp [Inbox.new], by simp [Inbox.new], rfl⟩⟩
  obtain ⟨g, hg, _⟩ := handDiscipline.run_invariant handDiscipline_keeps hrun
    (handDiscipline.holds_initial hinit)
  refine ⟨fun hstream => ⟨hg.bytes hstream, ⟨_, hg.sent hstream⟩⟩, hg.kept.concat, hg.kept.fits,
    hg.kept.progress, fun call hcall e he => ?_⟩
  obtain ⟨heof, -, hall⟩ := hg.kept.atEnd call hcall e he
  exact ⟨heof, hall⟩

/-- A device that sends three bytes at a time. -/
def threeBytes : (e : ReaderEff) → Inbox → Option (e.Res × Inbox)
  | .read, p =>
    some ((3, Vector.replicate readerBuf 0x52), { p with device := p.device ++ [0x52, 0x52, 0x52] })
  | .send chunk, p =>
    if p.stream then
      some (true, { p with queue := p.queue ++ [chunk], received := p.received ++ chunk })
    else none
  | .close, p => some ((), p)

theorem threeBytes_poll (e : ReaderEff) (p : Inbox) (r : e.Res) (p' : Inbox)
    (h : threeBytes e p = some (r, p')) : readerPoll e p (.ready r) p' := by
  cases e with
  | read =>
    cases h
    exact .inr ⟨3, Vector.replicate readerBuf 0x52, by decide, rfl, rfl⟩
  | send chunk =>
    by_cases hstream : p.stream = true
    · rw [threeBytes, if_pos hstream] at h
      cases h
      exact .inl ⟨hstream, rfl, rfl⟩
    · rw [threeBytes, if_neg hstream] at h
      cases h
  | close =>
    cases h
    exact ⟨rfl, rfl⟩

/-- Three bytes arrive, and a buffer has room for two. -/
theorem faithful_stream_split : ∃ c tr, Run reader anyStep (Config.initial Inbox.new) tr c ∧
    c.world.delivered = [0x52, 0x52] ∧ c.world.leftover = [0x52] ∧ FaithfulStream c.world := by
  have hstart : Step reader (Config.initial Inbox.new) none _ := Step.start () rfl trivial
  have hrun : Run reader anyStep (Config.initial Inbox.new) [] _ := (Run.refl _).silent hstart
  obtain ⟨tr, hsent⟩ := Run.of_eval threeBytes_poll (fun _ _ _ _ _ => trivial) hrun
    (Config.put_self ..) (show readerOnce.eval threeBytes Inbox.new = some (.again, _) from rfl)
  have hread := Run.silent hsent (Step.ambient _ ⟨rfl, .inl ⟨2, true, rfl⟩⟩)
  exact ⟨_, _, hread, rfl, rfl, faithful_stream hread⟩

end Serial

end DriveWire
