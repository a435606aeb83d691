import DriveWire.Server.Solo

/-! # Framing of the Unframed Wire

    The wire carries opcode bytes and payloads with nothing between them.
    Section 1 says what a complete command is, Section 2 that every arm of
    the dispatch consumes exactly its payload, and Section 3 that a session
    over a concatenation of commands executes these commands. -/

namespace DriveWire

open Async Server

namespace Solo

variable {D F : Type} {host : Host D F} {eof : Bool} {t : Tid}

/-! ## Section 1: Complete commands -/

/-- How the length of a payload is determined. -/
inductive Payload where
  | fixed   : Nat → Payload
  | counted : Payload
  | status  : Payload
  deriving DecidableEq

/-- The number of payload bytes, given the payload. -/
def Payload.length : Payload → List UInt8 → Nat
  | .fixed n, _ => n
  -- SERWRITEM: the second byte counts what follows
  | .counted, p => 2 + (p.getD 1 0).toNat
  -- SERSETSTAT: only SS.ComSt has a status block
  | .status, p => 2 + if p.getD 1 0 = Ss.comst then Ss.comstPayloadLen else 0

/-- The payload of each opcode byte.  READEX counts the checksum that the
    guest sends after the reply. -/
def payloadOf (opcode : UInt8) : Payload :=
  match opcode with
  | 0x52 | 0x72 => .fixed 4
  | 0xD2 | 0xF2 => .fixed (4 + 2)
  | 0x57 | 0x77 => .fixed (4 + 256 + 2)
  | 0x5A | 0x50 | 0x45 | 0xC5 => .fixed 1
  | 0x47 | 0x53 | 0x44 | 0xC3 | 0x63 => .fixed 2
  | 0x64 => .counted
  | 0xC4 => .status
  | other => if 0x80 ≤ other ∧ other ≤ 0x8F then .fixed 1 else .fixed 0

/-- A command as a guest sends it. -/
structure Command where
  opcode   : UInt8
  payload  : List UInt8
  complete : payload.length = (payloadOf opcode).length payload

def Command.bytes (c : Command) : List UInt8 := c.opcode :: c.payload

/-- The payload that an arm of the dispatch expects. -/
def Decoded.payload : Decoded → Payload
  | .op .read | .op .reread => .fixed 4
  | .op .readEx | .op .rereadEx => .fixed (4 + 2)
  | .op .write | .op .rewrite => .fixed (4 + 256 + 2)
  | .op .dwInit | .op .print | .op .serInit | .op .serTerm => .fixed 1
  | .op .getStat | .op .setStat | .op .serGetStat | .op .serWrite | .op .serReadM => .fixed 2
  | .op .serWriteM => .counted
  | .op .serSetStat => .status
  | .fastWrite _ => .fixed 1
  | _ => .fixed 0

theorem payloadOf_fromByte (b : UInt8) : payloadOf b = Decoded.payload (Decoded.fromByte b) := by
  have h : ∀ n : Fin 256, payloadOf (UInt8.ofFin n) =
      Decoded.payload (Decoded.fromByte (UInt8.ofFin n)) := by decide +kernel
  simpa using h b.toFin

/-! ## Section 2: Each arm consumes its payload -/

/-- Code that leaves the wire alone and never waits. -/
def Quiet (host : Host D F) (t : Tid) {α : Type} (c : Code D α) : Prop :=
  ∀ (s : State D F) (wire : Wire), ∃ (a : α) (s' : State D F),
    c.eval (answer host false t) (s.world wire) = some (a, s'.world wire)

theorem quiet_return {α : Type} (a : α) : Quiet host t (return a : Code D α) :=
  fun s _ => ⟨a, s, rfl⟩

theorem Quiet.bind {α β : Type} {c : Code D α} {f : α → Code D β} (hc : Quiet host t c)
    (hf : ∀ a, Quiet host t (f a)) : Quiet host t (c >>= f) := by
  intro s wire
  obtain ⟨a, s', hs'⟩ := hc s wire
  obtain ⟨b, s'', hs''⟩ := hf a s' wire
  exact ⟨b, s'', by rw [Prog.eval_bind, hs']; exact hs''⟩

theorem quiet_guarded (m : Mode) (o : Op D) : Quiet host t (guarded m o) :=
  fun s wire => ⟨_, _, eval_guarded host false t m o s wire⟩

theorem quiet_sys (y : Sys D) : Quiet host t (await (.sys y)) :=
  fun s _ => ⟨(host y s.sys).1, { s with sys := (host y s.sys).2 }, rfl⟩

theorem quiet_notifyOne (c : Channel) : Quiet host t (await (.notifyOne c) : Code D Unit) :=
  fun s _ =>
    ⟨(), { s with notify := Function.update s.notify c (s.notify c).notifyOne }, rfl⟩

theorem quiet_pushVserial (channel byte : UInt8) :
    Quiet host t (pushVserial channel byte : Code D Unit) := by
  by_cases h : channel.toNat < vserialChannels
  · rw [pushVserial, dif_pos h]
    exact (quiet_guarded _ _).bind fun _ => quiet_notifyOne _
  · rw [pushVserial, dif_neg h]
    exact quiet_return ()

theorem quiet_setChannelOpen (channel : UInt8) (b : Bool) :
    Quiet host t (setChannelOpen channel b : Code D Unit) := by
  by_cases h : channel.toNat < vserialChannels
  · rw [setChannelOpen, dif_pos h]
    exact quiet_guarded _ _
  · rw [setChannelOpen, dif_neg h]
    exact quiet_return ()

theorem quiet_popPadded (channel count : UInt8) :
    Quiet host t (popPadded channel count : Code D (List UInt8)) := by
  unfold popPadded
  split
  · exact (quiet_guarded _ _).bind fun _ => quiet_return _
  · exact quiet_return _

theorem quiet_fetchSector (slot : UInt8) (lsn : Lsn) :
    Quiet host t (fetchSector slot lsn : Code D Sector) := by
  refine (quiet_guarded _ _).bind fun disk => ?_
  cases disk with
  | none => exact quiet_return _
  | some d =>
    refine (quiet_sys _).bind fun r => ?_
    cases r <;> exact quiet_return _

theorem quiet_storeSector (slot : UInt8) (lsn : Lsn) (sector : Sector) :
    Quiet host t (storeSector slot lsn sector : Code D UInt8) := by
  refine (quiet_guarded _ _).bind fun disk => ?_
  cases disk with
  | none => exact quiet_return _
  | some d =>
    refine (quiet_sys _).bind fun r => ?_
    cases r <;> exact quiet_return _

/-- A handler that reads exactly `payload`, whatever else happens. -/
def Consumes (host : Host D F) (t : Tid) (x : Handler D Unit) (payload : List UInt8) : Prop :=
  ∀ (s : State D F) out, ∃ (s' : State D F) (reply : List UInt8),
    x.run.eval (answer host false t) (s.world ⟨payload, out⟩) =
      some (.ok (), s'.world ⟨[], out ++ reply⟩)

theorem consumes_return : Consumes host t (return () : Handler D Unit) [] :=
  fun s out => ⟨s, [], by rw [List.append_nil]; rfl⟩

theorem consumes_readExact (n : Nat) {f : Vector UInt8 n → Handler D Unit} {payload : List UInt8}
    (h : n ≤ payload.length) (hf : Consumes host t (f (takeVector n payload h)) (payload.drop n)) :
    Consumes host t (readExact n >>= f) payload := by
  intro s out
  rw [eval_readExact_bind n f s payload out h]
  exact hf s out

theorem consumes_call {α : Type} {c : Code D α} {f : α → Handler D Unit} {payload : List UInt8}
    (hc : Quiet host t c) (hf : ∀ a, Consumes host t (f a) payload) :
    Consumes host t (call c >>= f) payload := by
  intro s out
  obtain ⟨a, s', hs'⟩ := hc s ⟨payload, out⟩
  rw [eval_call_bind hs']
  exact hf a s' out

theorem consumes_call_nil {c : Code D Unit} (hc : Quiet host t c) :
    Consumes host t (call c) [] := by
  intro s out
  obtain ⟨a, s', hs'⟩ := hc s ⟨[], out⟩
  exact ⟨s', [], by rw [eval_call hs', List.append_nil]⟩

theorem consumes_writeAll_bind {bs : List UInt8} {f : Unit → Handler D Unit}
    {payload : List UInt8} (hf : Consumes host t (f ()) payload) :
    Consumes host t (writeAll bs >>= f) payload := by
  intro s out
  obtain ⟨s', reply, hs'⟩ := hf s (out ++ bs)
  exact ⟨s', bs ++ reply, by rw [eval_writeAll_bind, hs', List.append_assoc]⟩

theorem consumes_writeAll (bs : List UInt8) : Consumes host t (writeAll bs : Handler D Unit) [] :=
  fun s out => ⟨s, bs, eval_writeAll bs s [] out⟩

/-- Reading the last `n` bytes of a payload. -/
theorem consumes_readExact_all (n : Nat) {f : Vector UInt8 n → Handler D Unit}
    {payload : List UInt8} (h : payload.length = n)
    (hf : ∀ v, Consumes host t (f v) []) : Consumes host t (readExact n >>= f) payload := by
  refine consumes_readExact n h.ge ?_
  rw [List.drop_eq_nil_of_le h.le]
  exact hf _

theorem handleRead_consumes (payload : List UInt8) (h : payload.length = 4) :
    Consumes host t (handleRead false) payload :=
  consumes_readExact_all 4 h fun _ =>
    consumes_call (quiet_fetchSector _ _) fun _ =>
      consumes_writeAll_bind (consumes_writeAll _)

theorem handleReadEx_consumes (payload : List UInt8) (h : payload.length = 4 + 2) :
    Consumes host t (handleRead true) payload := by
  refine consumes_readExact 4 (by omega) ?_
  refine consumes_call (quiet_fetchSector _ _) fun sector => ?_
  refine consumes_writeAll_bind ?_
  exact consumes_readExact_all 2 (by simp [h]) fun _ => consumes_writeAll _

theorem handleWrite_consumes (payload : List UInt8) (h : payload.length = 4 + 256 + 2) :
    Consumes host t handleWrite payload := by
  refine consumes_readExact 4 (by omega) ?_
  refine consumes_readExact sectorSize (by simp [h, sectorSize]) ?_
  refine consumes_readExact_all 2 (by simp [h, sectorSize]) fun sumBytes => ?_
  -- the checksum decides which reply is written, not what is read
  split
  · exact consumes_writeAll _
  · exact consumes_call (quiet_storeSector _ _ _) fun _ => consumes_writeAll _

theorem handleSerread_consumes : Consumes host t (handleSerread (D := D)) [] := by
  intro s out
  refine ⟨{ s with server := (Op.outboxScan.run s.server).2 },
    serreadReply (Op.outboxScan.run s.server).1, ?_⟩
  rw [handleSerread_eq]
  simp [answer, State.world, World.acquire, World.release, Wire.answer]

theorem handleSerwritem_consumes (payload : List UInt8)
    (h : payload.length = Payload.counted.length payload) :
    Consumes host t handleSerwritem payload := by
  have hlen : payload.length = 2 + (payload.getD 1 0).toNat := h
  refine consumes_readExact 2 (by omega) ?_
  refine consumes_readExact_all _ ?_ fun buf => ?_
  · rw [byte1_takeVector 0 payload, List.length_drop]
    omega
  split
  · exact consumes_call_nil (quiet_guarded _ _)
  · exact consumes_return

theorem handleSersetstat_consumes (payload : List UInt8)
    (h : payload.length = Payload.status.length payload) :
    Consumes host t handleSersetstat payload := by
  have hlen : payload.length =
      2 + if payload.getD 1 0 = Ss.comst then Ss.comstPayloadLen else 0 := h
  refine consumes_readExact 2 (by omega) ?_
  rw [byte1_takeVector 0 payload]
  by_cases hcomst : payload.getD 1 0 = Ss.comst
  · rw [if_pos hcomst] at hlen
    rw [if_neg (by rw [hcomst]; decide), if_neg (by rw [hcomst]; decide), if_pos hcomst]
    refine consumes_readExact_all _ ?_ fun _ => consumes_return
    rw [List.length_drop]
    omega
  · rw [if_neg hcomst] at hlen
    rw [if_neg hcomst, List.drop_eq_nil_of_le (by omega)]
    split
    · exact consumes_call_nil (quiet_setChannelOpen _ _)
    · split
      · exact consumes_call_nil (quiet_setChannelOpen _ _)
      · exact consumes_return

theorem handleTime_consumes : Consumes host t (handleTime (D := D)) [] := by
  refine consumes_call (quiet_sys _) fun now => ?_
  cases now with
  | some now => exact consumes_writeAll _
  | none => exact consumes_call (quiet_sys _) fun _ => consumes_writeAll _

/-- **Every arm of the dispatch consumes exactly its payload.** -/
theorem dispatch_consumes (host : Host D F) (t : Tid) (d : Decoded) (payload : List UInt8)
    (h : payload.length = (Decoded.payload d).length payload) :
    Consumes host t (dispatch d) payload := by
  have hnil : payload.length = 0 → payload = [] := List.eq_nil_of_length_eq_zero
  -- arm by arm: the fixed payload, or the length that the header tells
  cases d with
  | unknown b =>
    rw [hnil h]
    exact consumes_return
  | fastWrite channel =>
    exact consumes_readExact_all 1 h fun _ => consumes_call_nil (quiet_pushVserial _ _)
  | op o =>
    cases o with
    | read | reread => exact handleRead_consumes payload h
    | readEx | rereadEx => exact handleReadEx_consumes payload h
    | write | rewrite => exact handleWrite_consumes payload h
    | dwInit => exact consumes_readExact_all 1 h fun _ => consumes_writeAll _
    | print => exact consumes_readExact_all 1 h fun _ => consumes_call_nil (quiet_guarded _ _)
    | getStat | setStat | serGetStat =>
      exact consumes_readExact_all 2 h fun _ => consumes_return
    | serInit | serTerm =>
      exact consumes_readExact_all 1 h fun _ => consumes_call_nil (quiet_setChannelOpen _ _)
    | serWrite =>
      exact consumes_readExact_all 2 h fun _ => consumes_call_nil (quiet_pushVserial _ _)
    | serReadM =>
      exact consumes_readExact_all 2 h fun _ =>
        consumes_call (quiet_popPadded _ _) fun _ => consumes_writeAll _
    | serWriteM => exact handleSerwritem_consumes payload h
    | serSetStat => exact handleSersetstat_consumes payload h
    | time =>
      rw [hnil h]
      exact handleTime_consumes
    | serRead =>
      rw [hnil h]
      exact handleSerread_consumes
    | printFlush =>
      rw [hnil h]
      exact consumes_call (quiet_guarded _ _) fun _ => consumes_return
    | nop | init | term | reset1 | reset2 | reset3 | wirebugMode =>
      rw [hnil h]
      exact consumes_return

/-! ## Section 3: Whole sessions -/

/-- The state in a session's world. -/
def State.ofWorld (w : World D F Wire) : State D F := ⟨w.server, w.notify, w.sys⟩

/-- One command on its own: its reply, and the state it leaves. -/
def exec (host : Host D F) (t : Tid) (c : Command) (s : State D F) :
    Option (List UInt8 × State D F) :=
  match runOnce.run.eval (answer host false t) (s.world ⟨c.bytes, []⟩) with
  | some (.ok (), w) => some (w.net.output, State.ofWorld w)
  | _ => none

/-- The commands one after the other: the concatenation of their replies, and
    the last state. -/
def execAll (host : Host D F) (t : Tid) :
    List Command → State D F → Option (List UInt8 × State D F)
  | [], s => some ([], s)
  | c :: cs, s => (exec host t c s).bind fun x =>
      (execAll host t cs x.2).map fun y => (x.1 ++ y.1, y.2)

/-- A whole session: the bytes that each finished iteration of the loop of
    `run` took from the wire, the first of them as the opcode, the error that
    ended the session, and the world then. -/
def serve (host : Host D F) (t : Tid) (w : World D F Wire) :
    Option (List (List UInt8) × ServerError × World D F Wire) :=
  match runOnce.run.eval (answer host true t) w with
  | none => none
  | some (.error e, w') => some ([], e, w')
  | some (.ok (), w') =>
    if w'.net.input.length < w.net.input.length then
      (serve host t w').map fun x =>
        (w.net.input.take (w.net.input.length - w'.net.input.length) :: x.1, x.2)
    else none
termination_by w.net.input.length

/-- An iteration that took `frame` from the wire. -/
theorem serve_next {w w' : World D F Wire} {frame : List UInt8}
    (hrun : runOnce.run.eval (answer host true t) w = some (.ok (), w'))
    (hframe : w.net.input = frame ++ w'.net.input) (hne : frame ≠ []) :
    serve host t w = (serve host t w').map fun x => (frame :: x.1, x.2) := by
  have hpos := List.length_pos_of_ne_nil hne
  have hlt : w'.net.input.length < w.net.input.length := by
    rw [hframe, List.length_append]
    omega
  have htake : w.net.input.take (w.net.input.length - w'.net.input.length) = frame := by
    rw [hframe]
    simp
  rw [serve, hrun]
  simp only [if_pos hlt, htake]

theorem runOnce_consumes (c : Command) :
    Consumes host t (runOnce (D := D)) c.bytes := by
  intro s out
  have hpayload :
      c.payload.length = (Decoded.payload (Decoded.fromByte c.opcode)).length c.payload := by
    rw [← payloadOf_fromByte]
    exact c.complete
  have hopcode : byte0 (takeVector 1 c.bytes (by simp [Command.bytes])) = c.opcode := by
    exact byte0_takeVector 0 c.bytes _
  obtain ⟨s', reply, hs'⟩ := dispatch_consumes host t _ _ hpayload s out
  refine ⟨s', reply, ?_⟩
  rw [runOnce_eq, ← hs', ← hopcode]
  simp [answer, State.world, Wire.answer, Command.bytes]

/-- A command leaves every byte after it on the wire. -/
theorem exec_spec (host : Host D F) (t : Tid) (c : Command) (s : State D F) :
    ∃ reply s', exec host t c s = some (reply, s') ∧ ∀ eof rest out,
      runOnce.run.eval (answer host eof t) (s.world ⟨c.bytes ++ rest, out⟩) =
        some (.ok (), s'.world ⟨rest, out ++ reply⟩) := by
  obtain ⟨s', reply, hs'⟩ := runOnce_consumes c s []
  refine ⟨reply, s', ?_, fun eof rest out => ?_⟩
  · rw [exec, hs']
    rfl
  · have := eval_feed host eof t rest out hs'
    simpa [feed, State.world] using this

/-- A byte that does not decode is a command that does nothing. -/
theorem exec_unknown {b : UInt8} (hb : Decoded.fromByte b = .unknown b)
    (h : ([] : List UInt8).length = (payloadOf b).length []) (s : State D F) :
    exec host t ⟨b, [], h⟩ s = some ([], s) := by
  have hrun : runOnce.run.eval (answer host false t) (s.world ⟨[b], []⟩) =
      some (.ok (), s.world ⟨[], []⟩) := by
    have hopcode : byte0 (takeVector 1 [b] (by simp)) = b := byte0_takeVector 0 [b] _
    rw [runOnce_eq]
    simp only [Prog.eval_eff, answer, State.world, Wire.answer]
    simp [hopcode, hb, dispatch]
  have hbytes : Command.bytes ⟨b, [], h⟩ = [b] := rfl
  rw [exec, hbytes, hrun]
  rfl

theorem unknown_complete {b : UInt8} (hb : Decoded.fromByte b = .unknown b) :
    ([] : List UInt8).length = (payloadOf b).length [] := by
  rw [payloadOf_fromByte, hb]
  rfl

theorem serve_execAll (host : Host D F) (t : Tid) (cmds : List Command) (s : State D F)
    (out : List UInt8) :
    ∃ reply s', execAll host t cmds s = some (reply, s') ∧
      serve host t (s.world ⟨cmds.flatMap Command.bytes, out⟩) =
        some (cmds.map Command.bytes, .eof, s'.world ⟨[], out ++ reply⟩) := by
  induction cmds generalizing s out with
  | nil =>
    refine ⟨[], s, rfl, ?_⟩
    have heof : runOnce.run.eval (answer host true t) (s.world ⟨[], out⟩) =
        some (.error .eof, s.world ⟨[], out⟩) := by
      rw [runOnce_eq]
      rfl
    rw [serve, List.flatMap_nil, heof, List.append_nil]
    rfl
  | cons c cmds ih =>
    obtain ⟨reply, s₁, hexec, hrun⟩ := exec_spec host t c s
    obtain ⟨replies, s₂, hall, hserve⟩ := ih s₁ (out ++ reply)
    refine ⟨reply ++ replies, s₂, by rw [execAll, hexec]; simp [hall], ?_⟩
    have hframe : (s.world ⟨c.bytes ++ cmds.flatMap Command.bytes, out⟩).net.input =
        c.bytes ++ (s₁.world ⟨cmds.flatMap Command.bytes, out ++ reply⟩).net.input := rfl
    have hnext := serve_next (hrun true (cmds.flatMap Command.bytes) out) hframe
      (List.cons_ne_nil _ _)
    rw [List.flatMap_cons, hnext, hserve, List.append_assoc]
    rfl

/-- Bytes that do not decode can be inserted between any two commands. -/
theorem execAll_insert (before after : List Command) (glitches : List Command)
    (hg : ∀ g ∈ glitches, ∀ s : State D F, exec host t g s = some ([], s)) (s : State D F) :
    execAll host t (before ++ glitches ++ after) s = execAll host t (before ++ after) s := by
  induction before generalizing s with
  | nil =>
    induction glitches with
    | nil => rfl
    | cons g glitches ih =>
      have hrest := ih fun g' hg' => hg g' (List.mem_cons_of_mem _ hg')
      simp only [List.nil_append, List.cons_append] at hrest ⊢
      rw [execAll, hg g List.mem_cons_self, Option.bind_some, hrest]
      simp
  | cons c before ih =>
    simp only [List.cons_append, execAll]
    exact congrArg _ (funext fun x => congrArg _ (ih x.2))

/-! ## Section 4: Sessions as runs of the system -/

theorem eval_guestOnce (host : Host D F) (eof : Bool) (t : Tid) (w : World D F Wire) :
    guestOnce.eval (answer host eof t) w =
      (runOnce.run.eval (answer host eof t) w).map fun x => (flowOf x.1, x.2) := by
  rw [guestOnce, Prog.eval_bind, Option.map_eq_bind]
  rfl

/-- What `serve` computes is what the guest task of the system does. -/
theorem serve_run [VDisk D] [UnicodeTables] (n : Nat) {c₀ c : SysConfig D F Wire}
    {tr : List (SysLabel D)} {frames : List (List UInt8)} {e : ServerError} {w : World D F Wire}
    (hrun : Run (system (env host)) writesSucceed c₀ tr c)
    (hc : c.task (.guest n) = .live guestOnce)
    (hserve : serve host (.guest n) c.world = some (frames, e, w)) :
    ∃ tr', Run (system (env host)) writesSucceed c₀ tr'
      (c.put (.guest n) (.live (.ret (.done (.session e)))) w) := by
  -- induction on the input that is left: each iteration reads at least its opcode
  induction hk : c.world.net.input.length using Nat.strongRecOn generalizing c tr frames with
  | ind k ih =>
    rw [serve] at hserve
    have heval := eval_guestOnce host true (.guest n) c.world
    cases honce : runOnce.run.eval (answer host true (.guest n)) c.world with
    | none => rw [honce] at hserve; cases hserve
    | some x =>
      obtain ⟨r, w₁⟩ := x
      rw [honce] at hserve heval
      cases r with
      | error e' =>
        cases hserve
        exact run_of_eval host (.guest n) hrun hc heval
      | ok u =>
        obtain ⟨tr₁, hrun₁⟩ := run_of_eval host (.guest n) hrun hc heval
        have hagain := Run.silent hrun₁ (Step.again (.guest n) (Config.put_self ..))
        simp only at hserve
        split at hserve
        · rename_i hlt
          obtain ⟨y, hy, hyeq⟩ := Option.map_eq_some_iff.mp hserve
          obtain ⟨fs, e', w'⟩ := y
          cases hyeq
          obtain ⟨tr₂, hrun₂⟩ := ih _ (hk ▸ hlt) hagain (Config.put_self ..) hy rfl
          exact ⟨tr₂, by simpa [Config.put] using hrun₂⟩
        · cases hserve

/-! ## Section 5: Framing -/

/-- Bytes that do not decode make no difference between two commands. -/
theorem serve_glitches (host : Host D F) (t : Tid) (s : State D F) (before after : List Command)
    {glitches : List UInt8} (hglitches : ∀ b ∈ glitches, Decoded.fromByte b = .unknown b) :
    (serve host t (s.world ⟨before.flatMap Command.bytes ++ glitches ++
        after.flatMap Command.bytes, []⟩)).map (·.2) =
      (serve host t (s.world ⟨(before ++ after).flatMap Command.bytes, []⟩)).map (·.2) := by
  let skipped : List Command :=
    glitches.attach.map fun b => ⟨b.1, [], unknown_complete (hglitches b.1 b.2)⟩
  have hbytes : skipped.flatMap Command.bytes = glitches := by
    simp [skipped, List.flatMap_map, Command.bytes]
  -- each of them is a command of one byte that does nothing
  have hskip : ∀ g ∈ skipped, ∀ s : State D F, exec host t g s = some ([], s) := by
    intro g hg s
    obtain ⟨b, _, rfl⟩ := List.mem_map.mp hg
    exact exec_unknown (hglitches b.1 b.2) _ s
  obtain ⟨reply, s', hall, hserve⟩ := serve_execAll host t (before ++ after) s []
  obtain ⟨reply', s'', hall', hserve'⟩ :=
    serve_execAll host t (before ++ skipped ++ after) s []
  rw [execAll_insert before after skipped hskip, hall] at hall'
  cases hall'
  rw [List.flatMap_append, List.flatMap_append, hbytes] at hserve'
  rw [hserve, hserve']
  rfl

/-- **Framing.** A session over the concatenation of complete commands
    executes these commands in this order, one iteration of the loop for
    each: iteration by iteration it takes their bytes, and it ends with the
    state and the output that they have one by one.  Bytes that do not
    decode, inserted between two commands, make no difference.  A guest
    task of the system that waits for its next opcode, with these bytes to
    read, can do the same. -/
theorem serve_commands (host : Host D F) (t : Tid) (s : State D F) (cmds : List Command) :
    (∃ reply s', execAll host t cmds s = some (reply, s') ∧
      serve host t (s.world ⟨cmds.flatMap Command.bytes, []⟩) =
        some (cmds.map Command.bytes, .eof, s'.world ⟨[], reply⟩)) ∧
    (∀ before after glitches, cmds = before ++ after →
      (∀ b ∈ glitches, Decoded.fromByte b = .unknown b) →
      (serve host t (s.world ⟨before.flatMap Command.bytes ++ glitches ++
          after.flatMap Command.bytes, []⟩)).map (·.2) =
        (serve host t (s.world ⟨cmds.flatMap Command.bytes, []⟩)).map (·.2)) ∧
    ∀ [VDisk D] [UnicodeTables] (n : Nat) (c : SysConfig D F Wire), t = .guest n →
      c.task t = .live guestOnce → c.world = s.world ⟨cmds.flatMap Command.bytes, []⟩ →
      ∃ tr reply s', execAll host t cmds s = some (reply, s') ∧
        Run (system (env host)) writesSucceed c tr
          (c.put t (.live (.ret (.done (.session .eof)))) (s'.world ⟨[], reply⟩)) := by
  refine ⟨serve_execAll host t cmds s [], fun before after glitches hcmds hglitches => ?_, ?_⟩
  · subst hcmds
    exact serve_glitches host t s before after hglitches
  · rintro _ _ n c rfl htask hworld
    obtain ⟨reply, s', hall, hserve⟩ := serve_execAll host (.guest n) cmds s []
    rw [← hworld] at hserve
    obtain ⟨tr, hrun⟩ := serve_run n (Run.refl c) htask hserve
    exact ⟨tr, reply, s', hall, hrun⟩

end Solo

end DriveWire
