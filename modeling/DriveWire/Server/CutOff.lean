import DriveWire.Disk.DskHost

/-! # Commands Cut Off by a Disconnect

    A stream of any bytes is a number of complete commands and the beginning
    of another.  The session executes the complete ones, and reads the
    beginning of the last without a trace. -/

namespace DriveWire

open Async Server Solo

variable {D F I : Type}

/-! ## Section 1: One iteration -/

/-- The opcode has been read, and its arm starves. -/
theorem eval_guestOnce_starves {host : Host D F} {images : F → I}
    (hreads : ∀ (y : Sys D) f, y.Reads → images (host y f).2 = images f) (t : Tid)
    {opcode : UInt8} {input : List UInt8}
    (hfeed : (arm (Decoded.fromByte opcode)).feed input = none) (s : State D F)
    (out : List UInt8) :
    ∃ f more, guestOnce.eval (answer host true t) (s.world ⟨opcode :: input, out⟩) =
        some (.done (.session (.io earlyEof)), { s with sys := f }.world ⟨[], out ++ more⟩) ∧
      images f = images s.sys := by
  have hanswer : answer host true t (.io (.readExact 1)) (s.world ⟨opcode :: input, out⟩) =
      some (.ok #v[opcode], s.world ⟨input, out⟩) := by
    simp [answer, State.world, Wire.answer]
    rfl
  have htalks := guestOnce_talks (D := D)
  rw [guestOnce_eq] at htalks ⊢
  have harm := htalks.2 (.ok #v[opcode]) trivial
  obtain ⟨f, more, heval, hf⟩ := eval_starves hreads (t := t) harm rfl hfeed s out
  refine ⟨f, more, ?_, hf⟩
  rw [Prog.eval_eff, hanswer]
  exact heval

/-- No command is complete where its arm starves. -/
theorem not_prefix_of_starves {opcode : UInt8} {input : List UInt8}
    (hfeed : (arm (Decoded.fromByte opcode)).feed input = none) (c : Command) :
    ¬ c.bytes <+: opcode :: input := by
  intro hprefix
  obtain ⟨hopcode, rest, rfl⟩ := List.cons_prefix_cons.mp hprefix
  have hcomplete := c.complete
  rw [payloadOf_fromByte, hopcode] at hcomplete
  rw [Dialogue.feed_append ((feed_arm _ _).mpr hcomplete)] at hfeed
  cases hfeed

/-! ## Section 2: Whole sessions -/

/-- How a session ends whose stream ends with the part `part` of a command. -/
def endOf (part : List UInt8) : ServerError := if part = [] then .eof else .io earlyEof

/-- A session on any stream, on a machine whose reads keep the images. -/
theorem serve_cut {host : Host D F} {images : F → I}
    (hreads : ∀ (y : Sys D) f, y.Reads → images (host y f).2 = images f) (t : Tid)
    (s : State D F) (bs out : List UInt8) :
    ∃ cmds part, bs = cmds.flatMap Command.bytes ++ part ∧ (∀ c : Command, ¬ c.bytes <+: part) ∧
      ∃ reply s' f more, execAll host t cmds s = some (reply, s') ∧
        serve host t (s.world ⟨bs, out⟩) = some (cmds.map Command.bytes, endOf part,
          { s' with sys := f }.world ⟨[], out ++ (reply ++ more)⟩) ∧
        images f = images s'.sys := by
  induction hn : bs.length using Nat.strong_induction_on generalizing s bs out with
  | _ n ih =>
  cases bs with
  | nil =>
    refine ⟨[], [], rfl, fun c => ?_, [], s, s.sys, [], rfl, ?_, rfl⟩
    · simp [Command.bytes]
    · have hrun : runOnce.run.eval (answer host true t) (s.world ⟨[], out⟩) =
          some (.error .eof, s.world ⟨[], out⟩) := by
        rw [runOnce_eq]
        simp [answer, State.world, Wire.answer, earlyEof]
      rw [serve, hrun, List.append_nil, List.append_nil]
      rfl
  | cons opcode input =>
    cases hfeed : (arm (Decoded.fromByte opcode)).feed input with
    | none =>
      obtain ⟨f, more, heval, hf⟩ := eval_guestOnce_starves hreads t hfeed s out
      refine ⟨[], opcode :: input, rfl, not_prefix_of_starves hfeed, [], s, f, more, rfl, ?_, hf⟩
      rw [eval_guestOnce] at heval
      obtain ⟨⟨r, w⟩, hrun, hflow⟩ := Option.map_eq_some_iff.mp heval
      cases r with
      | ok u => cases hflow
      | error e =>
        cases hflow
        rw [serve, hrun]
        rfl
    | some rest =>
      -- the first command is complete
      obtain ⟨payload, rfl, hused⟩ := Dialogue.feed_eq_some hfeed
      have hnil := hused []
      rw [List.append_nil] at hnil
      have hcomplete := (feed_arm _ _).mp hnil
      rw [← payloadOf_fromByte] at hcomplete
      let c : Command := ⟨opcode, payload, hcomplete⟩
      obtain ⟨reply, s₁, hexec, hrun⟩ := exec_spec host t c s
      have hlt : rest.length < n := by
        rw [← hn, List.length_cons, List.length_append]
        omega
      obtain ⟨cmds, part, hbs, hpart, replies, s', f, more, hall, hserve, hf⟩ :=
        ih rest.length hlt s₁ rest (out ++ reply) rfl
      refine ⟨c :: cmds, part, ?_, hpart, reply ++ replies, s', f, more, ?_, ?_, hf⟩
      · rw [List.flatMap_cons, List.append_assoc, ← hbs]
        rfl
      · rw [execAll, hexec, Option.bind_some, hall]
        rfl
      · have hframe : (s.world ⟨c.bytes ++ rest, out⟩).net.input =
            c.bytes ++ (s₁.world ⟨rest, out ++ reply⟩).net.input := rfl
        refine (serve_next (hrun true rest out) hframe (by simp [Command.bytes])).trans ?_
        rw [hserve, List.append_assoc reply, List.append_assoc out]
        rfl

/-- **A command that is cut off has no effect.** On any stream of bytes a
    session executes the complete commands, reads the rest, and reports
    whether the stream ended between two commands.  It leaves the server and
    the disk images as they are after the complete commands alone. -/
theorem cut_off (fs : (e : FileEff) → F → e.Res × F) (localTime : F → Option OffsetDateTime)
    (utc : F → OffsetDateTime) (images : F → I)
    (hfs : ∀ e f, e.Reads → images (fs e f).2 = images f) (t : Tid) (s : State DskFile F)
    (bs : List UInt8) :
    ∃ cmds part, bs = cmds.flatMap Command.bytes ++ part ∧ (∀ c : Command, ¬ c.bytes <+: part) ∧
      ∃ reply s' f more, execAll (fileHost fs localTime utc) t cmds s = some (reply, s') ∧
        serve (fileHost fs localTime utc) t (s.world ⟨bs, []⟩) =
          some (cmds.map Command.bytes, if part = [] then .eof else .io earlyEof,
            { s' with sys := f }.world ⟨[], reply ++ more⟩) ∧
        images f = images s'.sys :=
  serve_cut (fileHost_reads hfs) t s bs []

/-- No disks, no files. -/
def bare : State DskFile Files where
  server := Server.new DskFile
  notify := fun _ => .new
  sys    := ⟨fun _ => none, fun _ => [], 0, fun _ => 0, fun _ => 0⟩

/-- A NOP and a SERWRITEM that lacks one of its three bytes. -/
def cutBurst : List UInt8 := [0x00, 0x64, 5, 3, 0x41, 0x42]

theorem cut_off_burst : ∃ cmds part, cutBurst = cmds.flatMap Command.bytes ++ part ∧
    (∀ c : Command, ¬ c.bytes <+: part) ∧
      ∃ reply s' f more,
        execAll (fileHost FileEff.answer (fun _ => none) fun _ => ⟨1970, 1, 1, 0, 0, 0⟩)
          (.guest 0) cmds bare = some (reply, s') ∧
        serve (fileHost FileEff.answer (fun _ => none) fun _ => ⟨1970, 1, 1, 0, 0, 0⟩)
          (.guest 0) (bare.world ⟨cutBurst, []⟩) =
          some (cmds.map Command.bytes, if part = [] then .eof else .io earlyEof,
            { s' with sys := f }.world ⟨[], reply ++ more⟩) ∧
        f.bytes = s'.sys.bytes :=
  cut_off FileEff.answer (fun _ => none) (fun _ => ⟨1970, 1, 1, 0, 0, 0⟩) Files.bytes
    FileEff.Reads.answer_bytes (.guest 0) bare cutBurst

end DriveWire
