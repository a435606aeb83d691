import DriveWire.Async.Protocol
import DriveWire.Server.Effects

/-! # The Serial Writer Thread

    `BlockingSerial::poll_write` hands whole buffers to a channel, and the
    thread of `writer_loop` writes them to the device with blocking kernel
    calls.  The wire has no framing, so a byte that is lost between two that
    are sent shifts everything the guest reads after it.

    The kernel call may write any part of the buffer, or nothing.  When it
    writes nothing the rest of the chunk is dropped, but the thread goes on
    with the next chunk: the stream has no hole as long as the kernel does
    not accept bytes again after that. -/

namespace DriveWire

open Async

namespace Serial

/-! ## Section 1: The port -/

/-- The state that the two sides of the port share, with a record of what was
    accepted and what has reached the file descriptor. -/
structure Port where
  /-- The chunks in the `mpsc` channel. -/
  queue    : List (List UInt8)
  /-- The `BlockingSerial` with its sender exists. -/
  sender   : Bool
  /-- The writer thread has its receiver. -/
  receiver : Bool
  /-- The buffers that `poll_write` has accepted. -/
  accepted : List (List UInt8)
  /-- The bytes that the kernel has taken. -/
  wire     : List UInt8
  /-- A kernel call has written nothing. -/
  failed   : Bool

/-- The port as `open` leaves it. -/
def Port.new : Port := ⟨[], true, true, [], [], false⟩

/-- `poll_write` -/
def pollWrite (buf : List UInt8) (p : Port) : Except IoError Nat × Port :=
  if p.receiver then
    (.ok buf.length, { p with queue := p.queue ++ [buf], accepted := p.accepted ++ [buf] })
  else (.error ⟨.brokenPipe, str "writer thread closed"⟩, p)

/-! ## Section 2: The thread -/

inductive WriterEff where
  | blockingRecv : WriterEff
  /-- `libc::write` of the remaining bytes. -/
  | write        : List UInt8 → WriterEff
  | close        : WriterEff

@[reducible] def WriterEff.Res : WriterEff → Type
  | .blockingRecv => Option (List UInt8)
  | .write _ => Int
  | .close => Unit

def perform (e : WriterEff) : Prog WriterEff WriterEff.Res e.Res := Prog.perform e

theorem length_drop_lt {remaining : List UInt8} {n : Int} (h : remaining ≠ []) (hn : ¬ n ≤ 0) :
    (remaining.drop n.toNat).length < remaining.length := by
  have hpos : 0 < remaining.length := List.length_pos_iff.mpr h
  rw [List.length_drop]
  omega

/-- The inner loop of `writer_loop`. -/
def writeChunk (remaining : List UInt8) : Prog WriterEff WriterEff.Res Unit :=
  if _ : remaining = [] then .ret ()
  else .eff (.write remaining) fun (n : Int) =>
    -- the rest of the chunk is dropped
    if _ : n ≤ 0 then .ret ()
    else writeChunk (remaining.drop n.toNat)
termination_by remaining.length
decreasing_by exact length_drop_lt ‹_› ‹_›

theorem writeChunk_nil : writeChunk [] = .ret () := by
  rw [writeChunk, dif_pos rfl]

theorem writeChunk_eq {remaining : List UInt8} (h : remaining ≠ []) :
    writeChunk remaining = .eff (.write remaining) fun (n : Int) =>
      if n ≤ 0 then .ret () else writeChunk (remaining.drop n.toNat) := by
  rw [writeChunk, dif_neg h]
  refine congrArg (Prog.eff _) (funext fun n => ?_)
  split <;> rfl

/-- One iteration of the outer loop of `writer_loop`. -/
def writerOnce : Prog WriterEff WriterEff.Res (Flow Unit) := do
  match ← perform .blockingRecv with
  | some chunk =>
    writeChunk chunk
    return .again
  | none =>
    perform .close
    return .done ()

/-- The bytes the kernel takes when a call returns `n`. -/
def Port.write (p : Port) (remaining : List UInt8) (n : Int) : Port :=
  { p with wire := p.wire ++ remaining.take n.toNat, failed := p.failed || decide (n ≤ 0) }

/-- What the channel and the kernel answer.  A blocking call need not return. -/
def writerPoll : (e : WriterEff) → Port → Poll e.Res → Port → Prop
  | .blockingRecv, p, r, p' =>
    (∃ chunk rest, p.queue = chunk :: rest ∧ r = .ready (some chunk) ∧
      p' = { p with queue := rest }) ∨
    (p.queue = [] ∧ p.sender = false ∧ r = .ready none ∧ p' = p) ∨
    (p.queue = [] ∧ p.sender = true ∧ r = .pending ∧ p' = p)
  | .write remaining, p, r, p' =>
    (r = .pending ∧ p' = p) ∨
    ∃ n : Int, n ≤ remaining.length ∧ r = .ready n ∧ p' = p.write remaining n
  | .close, p, r, p' => r = .ready () ∧ p' = p

/-- The thread, and the calls of `poll_write` that come at any time as long
    as the `BlockingSerial` exists. -/
def writer : Runtime Unit WriterEff WriterEff.Res Port Unit where
  body     := fun _ => writerOnce
  poll     := fun _ => writerPoll
  mayStart := fun _ _ => True
  atExit   := fun _ p => { p with receiver := false }
  ambient  := fun p p' =>
    p.sender = true ∧ ((∃ buf, p' = (pollWrite buf p).2) ∨ p' = { p with sender := false })

abbrev PortConfig : Type := Config Unit WriterEff WriterEff.Res Port Unit

abbrev PortLabel : Type := Label Unit (E := WriterEff) WriterEff.Res

/-! ## Section 3: The bytes in flight -/

/-- The state is the part of the current chunk that is not written yet. -/
def chunks : Protocol WriterEff WriterEff.Res (List UInt8) where
  allows := fun left e =>
    match e with
    | .blockingRecv => left = []
    | .write remaining => remaining = left
    | .close => left = []
  admits := fun _ _ _ => True
  next := fun left e =>
    match e with
    | .blockingRecv => fun chunk => chunk.getD []
    | .write _ => fun (n : Int) => if n ≤ 0 then [] else left.drop n.toNat
    | .close => fun _ => left

/-- The inner loop ends with nothing left, written or dropped. -/
theorem writeChunk_chunks (remaining : List UInt8) :
    (writeChunk remaining).Obeys chunks remaining (fun _ left => left = []) := by
  by_cases h : remaining = []
  · subst h
    rw [writeChunk_nil]
    exact rfl
  · rw [writeChunk_eq h]
    refine ⟨rfl, fun (n : Int) _ => ?_⟩
    show (if n ≤ 0 then .ret () else writeChunk (remaining.drop n.toNat)).Obeys chunks
      (if n ≤ 0 then [] else remaining.drop n.toNat) _
    by_cases hn : n ≤ 0
    · rw [if_pos hn, if_pos hn]
      exact rfl
    · rw [if_neg hn, if_neg hn]
      exact writeChunk_chunks (remaining.drop n.toNat)
termination_by remaining.length
decreasing_by exact length_drop_lt h hn

theorem writerOnce_chunks : writerOnce.Obeys chunks [] (fun _ left => left = []) := by
  refine ⟨rfl, fun r _ => ?_⟩
  cases r with
  | some chunk => exact (writeChunk_chunks chunk).bind fun _ left hleft => hleft
  | none => exact ⟨rfl, fun _ _ => rfl⟩

def chunkDiscipline : Discipline writer (List UInt8) where
  toProtocol := chunks
  off        := []
  gone       := []
  enter      := fun _ => []
  leave      := fun _ _ left => left = []
  body_obeys := fun _ => writerOnce_chunks

/-- As long as no call has failed, nothing is lost; and there is no hole. -/
structure Whole (left : List UInt8) (p : Port) : Prop where
  intact : p.failed = false → p.wire ++ left ++ p.queue.flatten = p.accepted.flatten
  noHole : p.wire <+: p.accepted.flatten

theorem Whole.pollWrite {left : List UInt8} {p : Port} (h : Whole left p) (buf : List UInt8) :
    Whole left (pollWrite buf p).2 := by
  unfold Serial.pollWrite
  split
  · refine ⟨fun hfailed => ?_, ?_⟩
    · have := h.intact hfailed
      simp only [List.flatten_append, List.flatten_singleton, ← List.append_assoc, this]
    · exact h.noHole.trans (by simp [List.prefix_append])
  · exact h

theorem Whole.write {left : List UInt8} {p : Port} (h : Whole left p) {n : Int}
    (hn : p.failed = true → n ≤ 0) :
    Whole (if n ≤ 0 then [] else left.drop n.toNat) (p.write left n) := by
  by_cases hfail : n ≤ 0
  · have hnone : n.toNat = 0 := by omega
    refine ⟨fun hfailed => ?_, ?_⟩
    · simp [Port.write, hfail] at hfailed
    · simpa [Port.write, hnone] using h.noHole
  · have hfailed : p.failed = false := by
      by_contra hfailed
      exact hfail (hn (by simpa using hfailed))
    have hintact := h.intact hfailed
    rw [if_neg hfail]
    have hwhole : (p.write left n).wire ++ left.drop n.toNat ++ p.queue.flatten =
        p.accepted.flatten := by
      rw [← hintact, Port.write, List.append_assoc p.wire, List.take_append_drop]
    exact ⟨fun _ => hwhole, ⟨left.drop n.toNat ++ p.queue.flatten, by
      rw [← List.append_assoc]
      exact hwhole⟩⟩

/-! ## Section 4: Runs -/

/-- The condition on runs: after a call that wrote nothing the kernel writes
    nothing any more. -/
def staysFailed (c : PortConfig) (l : PortLabel) : Prop :=
  match l.2 with
  | ⟨.write _, n⟩ => c.world.failed = true → n ≤ 0
  | _ => True

theorem chunkDiscipline_keeps :
    chunkDiscipline.Keeps staysFailed (fun g p => Whole (g ()) p) where
  start := fun g p t hg hoff _ => by
    have hoff' : g () = [] := hoff
    show Whole (Function.update g () [] ()) p
    rw [Function.update_self, ← hoff']
    exact hg
  again := fun g p t hg hleave => by
    have hleave' : g () = [] := hleave
    show Whole (Function.update g () [] ()) p
    rw [Function.update_self, ← hleave']
    exact hg
  exit := fun g p t x hg hleave => by
    have hleave' : g () = [] := hleave
    show Whole (Function.update g () [] ()) _
    rw [Function.update_self, ← hleave']
    exact ⟨hg.intact, hg.noHole⟩
  pending := fun g p t e p' hg _ hpoll => by
    cases e with
    | blockingRecv =>
      obtain ⟨_, _, _, hr, _⟩ | ⟨_, _, hr, _⟩ | ⟨_, _, _, rfl⟩ := hpoll
      · cases hr
      · cases hr
      · exact hg
    | write remaining =>
      obtain ⟨_, rfl⟩ | ⟨_, _, hr, _⟩ := hpoll
      · exact hg
      · cases hr
    | close => exact nomatch hpoll.1
  ready := fun c g t e k r p' hg _ _ hallow hok hpoll => by
    refine ⟨trivial, ?_⟩
    rw [Function.update_self]
    cases e with
    | blockingRecv =>
      have hleft : g () = [] := hallow
      rw [hleft] at hg
      obtain ⟨chunk, rest, hqueue, hr, rfl⟩ | ⟨_, _, hr, rfl⟩ | ⟨_, _, hr, _⟩ := hpoll
      · cases hr
        refine ⟨fun hfailed => ?_, hg.noHole⟩
        have := hg.intact hfailed
        rw [hqueue, List.flatten_cons] at this
        show c.world.wire ++ chunk ++ rest.flatten = _
        rwa [← List.append_assoc, List.append_nil] at this
      · cases hr
        exact hg
      · cases hr
    | write remaining =>
      have hleft : remaining = g () := hallow
      obtain ⟨hr, _⟩ | ⟨n, _, hr, rfl⟩ := hpoll
      · cases hr
      · cases hr
        rw [hleft]
        -- the only place where the condition on the kernel is used
        exact hg.write hok
    | close =>
      obtain ⟨_, rfl⟩ := hpoll
      exact hg
  ambient := fun g p p' hg hw => by
    obtain ⟨_, ⟨buf, rfl⟩ | rfl⟩ := hw
    · exact hg.pollWrite buf
    · exact ⟨hg.intact, hg.noHole⟩

/-- **No hole in the byte stream**, in runs where the kernel stays failed. -/
theorem no_hole {c : PortConfig} {tr : List PortLabel}
    (hrun : Run writer staysFailed (Config.initial Port.new) tr c) :
    c.world.wire <+: c.world.accepted.flatten := by
  obtain ⟨g, hg, _⟩ := chunkDiscipline.run_invariant chunkDiscipline_keeps hrun
    (chunkDiscipline.holds_initial ⟨fun _ => rfl, List.prefix_refl []⟩)
  exact hg.noHole

/-! ## Section 5: Two kernels -/

/-- A channel and a kernel that answer at once, the kernel with `n`. -/
def answering (n : Port → List UInt8 → Int) : (e : WriterEff) → Port → Option (e.Res × Port)
  | .blockingRecv, p =>
    match p.queue with
    | chunk :: rest => some (some chunk, { p with queue := rest })
    | [] => if p.sender then none else some (none, p)
  | .write remaining, p => some (n p remaining, p.write remaining (n p remaining))
  | .close, p => some ((), p)

theorem answering_poll {n : Port → List UInt8 → Int} (hn : ∀ p bs, n p bs ≤ bs.length)
    (e : WriterEff) (p : Port) (r : e.Res) (p' : Port) (h : answering n e p = some (r, p')) :
    writerPoll e p (.ready r) p' := by
  cases e with
  | blockingRecv =>
    cases hqueue : p.queue with
    | cons chunk rest =>
      simp only [answering, hqueue] at h
      cases h
      exact .inl ⟨chunk, rest, hqueue, rfl, rfl⟩
    | nil =>
      simp only [answering, hqueue] at h
      cases hsender : p.sender with
      | true => rw [hsender, if_pos rfl] at h; cases h
      | false =>
        rw [hsender, if_neg nofun] at h
        cases h
        exact .inr (.inl ⟨hqueue, hsender, rfl, rfl⟩)
  | write remaining =>
    cases h
    exact .inr ⟨_, hn p remaining, rfl, rfl⟩
  | close =>
    cases h
    exact ⟨rfl, rfl⟩

/-- Takes one byte, and fails from then on. -/
def steady (p : Port) (bs : List UInt8) : Int :=
  if p.failed then -1 else if p.wire = [] then min 1 bs.length else -1

/-- Is interrupted once. -/
def flaky (p : Port) (bs : List UInt8) : Int := if p.failed then bs.length else -1

/-- Two buffers are accepted and the thread starts. -/
theorem run_calls (ok : PortConfig → PortLabel → Prop) (buf buf' : List UInt8) :
    Run writer ok (Config.initial Port.new) []
      ((Config.initial (pollWrite buf' (pollWrite buf Port.new).2).2).put () (.live writerOnce)
        (pollWrite buf' (pollWrite buf Port.new).2).2) := by
  have hcalls : Run writer ok (Config.initial Port.new) []
      (Config.initial (pollWrite buf' (pollWrite buf Port.new).2).2) :=
    Run.silent (Run.silent (Run.refl _) (Step.ambient _ ⟨rfl, .inl ⟨buf, rfl⟩⟩))
      (Step.ambient _ ⟨rfl, .inl ⟨buf', rfl⟩⟩)
  exact hcalls.silent (Step.start () rfl trivial)

/-- A part of the first of two buffers is written.  The rest is dropped, and so
    is the second buffer. -/
theorem no_hole_steady : ∃ c : PortConfig, c.world.failed = true ∧ c.world.queue = [] ∧
    c.world.accepted = [[1, 2], [3]] ∧ c.world.wire = [1] ∧
    c.world.wire <+: c.world.accepted.flatten := by
  let p₁ : Port := (pollWrite [3] (pollWrite [1, 2] Port.new).2).2
  let p₂ : Port := { p₁ with queue := [[3]], wire := [1], failed := true }
  let p₃ : Port := { p₂ with queue := [] }
  have hfirst : writerOnce.eval (answering steady) p₁ = some (.again, p₂) := by
    simp [writerOnce, perform, writeChunk_eq, answering, steady, p₁, p₂, pollWrite, Port.new,
      Port.write]
  have hsecond : writerOnce.eval (answering steady) p₂ = some (.again, p₃) := by
    simp [writerOnce, perform, writeChunk_eq, answering, steady, p₁, p₂, p₃, pollWrite, Port.new,
      Port.write]
  -- the kernel of this run stays failed
  have hsteady : ∀ (c : PortConfig) (e : WriterEff) (r : e.Res) (p' : Port),
      answering steady e c.world = some (r, p') → staysFailed c ((), ⟨e, r⟩) := by
    intro c e r p' h
    cases e with
    | write remaining =>
      cases h
      intro hfailed
      simp [steady, hfailed]
    | _ => trivial
  have hpoll := answering_poll (n := steady) fun p bs => by
    unfold steady
    split
    · omega
    · split <;> omega
  obtain ⟨tr₁, hrun₁⟩ :=
    Run.of_eval hpoll hsteady (run_calls _ [1, 2] [3]) (Config.put_self ..) hfirst
  have hagain := hrun₁.silent (Step.again () (Config.put_self ..))
  obtain ⟨tr₂, hrun₂⟩ := Run.of_eval hpoll hsteady hagain (Config.put_self ..) hsecond
  exact ⟨_, rfl, rfl, rfl, rfl, no_hole hrun₂⟩

/-- The first of two buffers is dropped, and the second one is sent. -/
theorem hole : ¬ ∀ (tr : List PortLabel) (c : PortConfig),
    Run writer anyStep (Config.initial Port.new) tr c →
    c.world.wire <+: c.world.accepted.flatten := by
  intro h
  let p₁ : Port := (pollWrite [3] (pollWrite [1, 2] Port.new).2).2
  let p₂ : Port := { p₁ with queue := [[3]], failed := true }
  let p₃ : Port := { p₂ with queue := [], wire := [3] }
  have hfirst : writerOnce.eval (answering flaky) p₁ = some (.again, p₂) := by
    simp [writerOnce, perform, writeChunk_eq, answering, flaky, p₁, p₂, pollWrite, Port.new,
      Port.write]
  have hsecond : writerOnce.eval (answering flaky) p₂ = some (.again, p₃) := by
    simp [writerOnce, perform, writeChunk_eq, writeChunk_nil, answering, flaky, p₁, p₂, p₃,
      pollWrite, Port.new, Port.write]
  have hpoll := answering_poll (n := flaky) fun p bs => by unfold flaky; split <;> omega
  obtain ⟨tr₁, hrun₁⟩ := Run.of_eval hpoll (fun _ _ _ _ _ => trivial) (run_calls anyStep [1, 2] [3])
    (Config.put_self ..) hfirst
  have hagain := hrun₁.silent (Step.again () (Config.put_self ..))
  obtain ⟨tr₂, hrun₂⟩ := Run.of_eval hpoll (fun _ _ _ _ _ => trivial) hagain (Config.put_self ..)
    hsecond
  have hprefix : ([3] : List UInt8) <+: [1, 2, 3] := h _ _ hrun₂
  revert hprefix
  decide

end Serial

end DriveWire
