import DriveWire.Server.Checksum
import DriveWire.Server.CutOff
import DriveWire.Server.Lengths

/-! # Resynchronisation

    A guest that has lost its place sends OP_RESET1 bytes.  Wherever the
    server waits, it takes a bounded number of them as the rest of a command,
    and every other one as an opcode that does nothing.  A WRITE that they
    complete never passes its checksum. -/

namespace DriveWire

open Async Server Solo Dialogue

/-- OP_RESET1 -/
def opReset1 : UInt8 := 0xFF

/-! ## Section 1: The bound -/

theorem arm_ends (d : Decoded) : (arm d).Ends opReset1 262 := by
  have hcount : ∀ p : List UInt8, (p.getD 1 0).toNat ≤ 255 := fun p =>
    Nat.le_of_lt_succ (p.getD 1 0).toNat_lt
  have hget : ∀ n ≤ 262, (Dialogue.get n fun _ => .done : Dialogue UInt8).Ends opReset1 262 := by
    intro n hn
    refine ⟨fun got _ => ?_, fun _ _ => trivial⟩
    simp only [fill]
    omega
  cases d with
  | unknown b => trivial
  | fastWrite c => exact hget 1 (by omega)
  | op o =>
    cases o with
    | read | reread => exact ⟨fun got _ => by simp only [fill]; omega, fun _ _ => trivial⟩
    | dwInit => exact ⟨fun got _ => by simp only [fill]; omega, fun _ _ => trivial⟩
    | serReadM => exact ⟨fun got _ => by simp only [fill]; omega, fun _ _ => trivial⟩
    | print | serInit | serTerm => exact hget 1 (by omega)
    | getStat | setStat | serGetStat | serWrite => exact hget 2 (by omega)
    | readEx | rereadEx =>
      refine ⟨fun got _ => by simp only [fill]; omega, fun _ _ => ?_⟩
      exact ⟨fun got _ => by simp only [fill]; omega, fun _ _ => trivial⟩
    -- the longest: 4 + 256 + 2 bytes
    | write | rewrite =>
      refine ⟨fun got _ => by simp only [fill]; omega, fun _ _ => ?_⟩
      refine ⟨fun got _ => by simp only [fill]; omega, fun _ _ => ?_⟩
      exact ⟨fun got _ => by simp only [fill]; omega, fun _ _ => trivial⟩
    -- the count is below 256, and it is 255 if the reset bytes are taken for it
    | serWriteM =>
      refine ⟨fun got _ => ?_, fun p _ => hget _ (by have := hcount p; omega)⟩
      have := hcount (got ++ List.replicate (2 - got.length) opReset1)
      simp only [fill]
      omega
    | serSetStat =>
      refine ⟨fun got _ => ?_, fun p _ => ?_⟩
      · show 2 - got.length + fill opReset1 (if _ then _ else _) ≤ 262
        split
        · simp only [fill, Ss.comstPayloadLen]
          omega
        · simp only [fill]
          omega
      · show Dialogue.Ends opReset1 262 (if _ then _ else _)
        split
        · exact hget _ (by decide)
        · trivial
    | _ => trivial

theorem session_ends : session.Ends opReset1 262 := by
  refine ⟨fun got hgot => ?_, fun bs _ => arm_ends _⟩
  -- waiting for an opcode: the reset is one
  have hnil : got = [] := List.eq_nil_of_length_eq_zero (by omega)
  subst hnil
  exact (by decide : 1 - 0 + fill opReset1 (arm (Decoded.fromByte opReset1)) ≤ 262)

variable {D F : Type} {host : Host D F} {eof : Bool} {t : Tid}

/-- A session that waits has read a part of one round. -/
theorem waits_in_round {es : List (Event (Eff.Res (D := D)))} {n : Nat}
    {k : Except IoError (Vector UInt8 n) → Code D (Flow Exit)}
    (h : Prog.Walk guestOnce es (.eff (.io (.readExact n)) k)) :
    ∃ first k', Path session session (turnsOf es) (.get n k') ∧
      (Prog.eff (.io (.readExact n)) k).Obeys talks (.talk first none (.get n k'))
        Stage.Leaves := by
  have hsaid := said_after h
  have hobeys := h.obeys (fun _ _ _ => trivial) guestOnce_talks
  generalize Prog.after talks (.talk true none session) es = s at hsaid hobeys
  have hallow := hobeys.1
  cases s with
  | failed held x =>
    obtain ⟨l, hl, -⟩ := hallow
    cases hl
  | talk first held d =>
    obtain ⟨rfl, k', rfl⟩ := hallow
    exact ⟨first, k', hsaid, hobeys⟩

variable (host eof t) in
/-- At most 262 resets end the command. -/
theorem resets_end {es : List (Event (Eff.Res (D := D)))} {n : Nat}
    {k : Except IoError (Vector UInt8 n) → Code D (Flow Exit)}
    (h : Prog.Walk guestOnce es (.eff (.io (.readExact n)) k)) {got : List UInt8}
    (hgot : got.length < n) :
    ∃ j ≤ 262, session.feed (input (turnsOf es) ++ (got ++ List.replicate j opReset1)) = some [] ∧
      ∀ (s : State D F) out, ∃ s' out', (Prog.eff (.io (.readExact n)) k).eval
          (answer host eof t) (s.world ⟨got ++ List.replicate j opReset1, out⟩) =
        some (.again, State.world s' ⟨[], out'⟩) := by
  obtain ⟨first, k', hpath, hobeys⟩ := waits_in_round h
  have hround := next_not_mem_turnsOf es
  obtain ⟨j, hj, hfeed⟩ := (hpath.ends hround session_ends).feed hgot
  refine ⟨j, hj, ?_, fun s out => ?_⟩
  · rw [hpath.feed hround, hfeed]
  · exact eval_talks hobeys rfl hfeed s out

/-- A reset at the beginning of a command is a command without effect. -/
theorem reset_idle (s : State D F) (rest out : List UInt8) :
    guestOnce.eval (answer host eof t) (s.world ⟨opReset1 :: rest, out⟩) =
      some (.again, s.world ⟨rest, out⟩) := by
  have hanswer : answer host eof t (.io (.readExact 1)) (s.world ⟨opReset1 :: rest, out⟩) =
      some (.ok #v[opReset1], s.world ⟨rest, out⟩) := by
    simp [answer, State.world, Wire.answer]
    rfl
  rw [guestOnce_eq, Prog.eval_eff, hanswer]
  rfl

/-! ## Section 2: The interrupted WRITE -/

/-- The event is a successful read. -/
def IsRead (ev : Event (Eff.Res (D := D))) : Prop :=
  ∃ n, ∃ v : Vector UInt8 n, ev = ⟨.io (.readExact n), .ok v⟩

/-- Reads can be made up for: on their bytes, the whole program does what is
    left of it does. -/
theorem eval_reads {α : Type} {p q : Code D α} {es : List (Event (Eff.Res (D := D)))}
    (h : Prog.Walk p es q) (hreads : ∀ ev ∈ es, IsRead ev) (s : State D F)
    (rest out : List UInt8) :
    p.eval (answer host eof t) (s.world ⟨input (turnsOf es) ++ rest, out⟩) =
      q.eval (answer host eof t) (s.world ⟨rest, out⟩) := by
  induction h generalizing rest with
  | refl => rfl
  | @snoc es e k r _ ih =>
    obtain ⟨n, v, hev⟩ := hreads ⟨e, r⟩ (List.mem_append_right _ (List.mem_singleton.mpr rfl))
    cases hev
    have hinput : input (turnsOf (es ++ [⟨.io (.readExact n), .ok v⟩])) =
        input (turnsOf es) ++ v.toList := by
      rw [turnsOf_snoc, input_append]
      exact congrArg _ (List.append_nil _)
    have hanswer : answer host eof t (.io (.readExact n)) (s.world ⟨v.toList ++ rest, out⟩) =
        some (.ok v, s.world ⟨rest, out⟩) := by
      have htake : takeVector n (v.toList ++ rest) (by simp) = v := by
        apply Vector.toList_inj.mp
        simp
      simp [answer, State.world, Wire.answer, htake]
    rw [hinput, List.append_assoc, ih fun ev hev => hreads ev (List.mem_append_left _ hev),
      Prog.eval_eff, hanswer]
    rfl

/-- The events of an iteration in the code `x`, up to another read. -/
abbrev WaitsIn (x : Handler D Unit) (es : List (Event (Eff.Res (D := D)))) (m : Nat)
    (k : Except IoError (Vector UInt8 m) → Code D (Flow Exit)) : Prop :=
  Prog.Walk (x.run >>= fun r => .ret (flowOf r)) es (.eff (.io (.readExact m)) k)

/-- Code that goes on to read has done its first read with success. -/
theorem waitsIn_readExact {n m : Nat} {f : Vector UInt8 n → Handler D Unit}
    {k : Except IoError (Vector UInt8 m) → Code D (Flow Exit)}
    {es : List (Event (Eff.Res (D := D)))} (h : WaitsIn (readExact n >>= f) es m k) :
    es = [] ∨ ∃ v es', es = ⟨.io (.readExact n), .ok v⟩ :: es' ∧ WaitsIn (f v) es' m k := by
  rw [WaitsIn, run_readExact_bind, Prog.eff_bind] at h
  rcases h.eff_cases with ⟨hes, -⟩ | ⟨r, es', hes, hwalk⟩
  · exact .inl hes
  · cases r with
    | ok v => exact .inr ⟨v, es', hes, hwalk⟩
    | error e => cases Prog.Walk.ret_eq hwalk

/-- A session waits for an opcode, or in an arm of the dispatch. -/
theorem guestOnce_waits {es : List (Event (Eff.Res (D := D)))} {m : Nat}
    {k : Except IoError (Vector UInt8 m) → Code D (Flow Exit)}
    (h : Prog.Walk guestOnce es (.eff (.io (.readExact m)) k)) :
    es = [] ∨ ∃ v es', es = ⟨.io (.readExact 1), .ok v⟩ :: es' ∧
      WaitsIn (dispatch (Decoded.fromByte (byte0 v))) es' m k := by
  rw [guestOnce_eq] at h
  rcases h.eff_cases with ⟨hes, -⟩ | ⟨r, es', hes, hwalk⟩
  · exact .inl hes
  · cases r with
    | ok v => exact .inr ⟨v, es', hes, hwalk⟩
    | error e => cases Prog.Walk.ret_eq hwalk

theorem length_input_cons {n : Nat} (v : Vector UInt8 n) (es : List (Event (Eff.Res (D := D)))) :
    (input (turnsOf (⟨.io (.readExact n), .ok v⟩ :: es))).length =
      n + (input (turnsOf es)).length := by
  have hcons : turnsOf (⟨.io (.readExact n), .ok v⟩ :: es) = .got v.toList :: turnsOf es := rfl
  rw [hcons, input, List.length_append, v.length_toList]

/-- A WRITE that waits for a byte before its checksum has done nothing but
    read. -/
theorem write_reads {es : List (Event (Eff.Res (D := D)))} {m : Nat}
    {k : Except IoError (Vector UInt8 m) → Code D (Flow Exit)} (h : WaitsIn handleWrite es m k)
    (hlen : (input (turnsOf es)).length ≤ 260) : ∀ ev ∈ es, IsRead ev := by
  obtain rfl | ⟨hdr, es₁, rfl, h₁⟩ := waitsIn_readExact h
  · simp
  rw [length_input_cons] at hlen
  obtain rfl | ⟨data, es₂, rfl, h₂⟩ := waitsIn_readExact h₁
  · simp [IsRead]
  rw [length_input_cons] at hlen
  obtain rfl | ⟨sum, es₃, rfl, -⟩ := waitsIn_readExact h₂
  · simp [IsRead]
  -- the checksum has been read, so there are more bytes than that
  · rw [length_input_cons, sectorSize] at hlen
    omega

/-- Two reset bytes are the checksum of no sector. -/
theorem resets_ne_checksum (data : Sector) :
    u16FromBe #v[opReset1, opReset1] ≠ checksum16 data.toList := by
  intro h
  have hsum := congrArg UInt16.toNat h
  rw [checksum16_sector] at hsum
  have hlen : data.toList.length = 256 := data.length_toList
  have hle := byteSum_le data.toList
  have hreset : (u16FromBe #v[opReset1, opReset1]).toNat = 0xFFFF := by decide
  omega

variable (host eof t) in
/-- A WRITE whose payload ends in two resets is rejected. -/
theorem eval_write_resets (s : State D F) {opcode : UInt8} (hop : opcode = 0x57 ∨ opcode = 0x77)
    {payload : List UInt8} (hlen : payload.length = 262)
    (hresets : payload.drop 260 = [opReset1, opReset1]) (out : List UInt8) :
    guestOnce.eval (answer host eof t) (s.world ⟨opcode :: payload, out⟩) =
      some (.again, s.world ⟨[], out ++ [DwError.crc.code]⟩) := by
  have hanswer : answer host eof t (.io (.readExact 1)) (s.world ⟨opcode :: payload, out⟩) =
      some (.ok #v[opcode], s.world ⟨payload, out⟩) := by
    simp [answer, State.world, Wire.answer]
    rfl
  have harm : dispatch (D := D) (Decoded.fromByte opcode) = handleWrite := by
    rcases hop with rfl | rfl <;> rfl
  obtain ⟨hdr, hhdr⟩ : ∃ hdr : Vector UInt8 4, hdr.toList = payload.take 4 :=
    ⟨takeVector 4 payload (by omega), rfl⟩
  obtain ⟨data, hdata⟩ : ∃ data : Sector, data.toList = (payload.drop 4).take 256 :=
    ⟨takeVector 256 (payload.drop 4) (by rw [List.length_drop]; omega), rfl⟩
  have hpayload : payload = hdr.toList ++ (data.toList ++ #v[opReset1, opReset1].toList) := by
    have hsum : (payload.drop 4).drop 256 = #v[opReset1, opReset1].toList := by
      rw [List.drop_drop]
      exact hresets
    rw [hhdr, hdata, ← hsum, List.take_append_drop, List.take_append_drop]
  have hwrite := eval_handleWrite_rejected host eof t s hdr data #v[opReset1, opReset1] out
    (resets_ne_checksum data)
  rw [← hpayload] at hwrite
  rw [guestOnce_eq, Prog.eval_eff, hanswer]
  show Prog.eval _ ((dispatch (Decoded.fromByte opcode)).run >>= _) _ = _
  rw [harm, Prog.eval_bind, hwrite]
  rfl

/-- The bytes of a WRITE or REWRITE without any of its checksum. -/
def WriteCut (bytes : List UInt8) : Prop :=
  ∃ opcode rest, bytes = opcode :: rest ∧ (opcode = 0x57 ∨ opcode = 0x77) ∧ rest.length ≤ 260

/-- The resets complete the WRITE and make it fail. -/
theorem resets_reject {es : List (Event (Eff.Res (D := D)))} {n j : Nat}
    {k : Except IoError (Vector UInt8 n) → Code D (Flow Exit)}
    (h : Prog.Walk guestOnce es (.eff (.io (.readExact n)) k)) {got : List UInt8}
    (hfeed : session.feed (input (turnsOf es) ++ (got ++ List.replicate j opReset1)) = some [])
    (hcut : WriteCut (input (turnsOf es) ++ got)) (s : State D F) (out : List UInt8) :
    (Prog.eff (.io (.readExact n)) k).eval (answer host eof t)
        (s.world ⟨got ++ List.replicate j opReset1, out⟩) =
      some (.again, s.world ⟨[], out ++ [DwError.crc.code]⟩) := by
  obtain ⟨opcode, rest, hbytes, hop, hrest⟩ := hcut
  -- the frame that the resets complete
  rw [← List.append_assoc, hbytes] at hfeed
  have hdecoded : Decoded.payload (Decoded.fromByte opcode) = .fixed 262 := by
    rcases hop with rfl | rfl <;> rfl
  have hlen : (rest ++ List.replicate j opReset1).length = 262 := by
    have hcomplete := (feed_arm _ _).mp (show (arm (Decoded.fromByte opcode)).feed _ = some []
      from hfeed)
    rwa [hdecoded] at hcomplete
  have hresets : (rest ++ List.replicate j opReset1).drop 260 = [opReset1, opReset1] := by
    rw [List.length_append, List.length_replicate] at hlen
    rw [List.drop_append, List.drop_of_length_le hrest, List.drop_replicate, List.nil_append,
      show j - (260 - rest.length) = 2 by omega]
    rfl
  have hwrite := eval_write_resets host eof t s hop hlen hresets out
  rw [← List.cons_append, ← hbytes, List.append_assoc] at hwrite
  refine Eq.trans (eval_reads h ?_ s _ out).symm hwrite
  -- the opcode has been read, and after it the WRITE has only read
  obtain rfl | ⟨v, es', rfl, hwaits⟩ := guestOnce_waits h
  · simp
  have hcons : v.toList ++ input (turnsOf es') ++ got = opcode :: rest := hbytes
  rw [toList_one, List.append_assoc] at hcons
  obtain ⟨hopcode, htail⟩ := List.cons_eq_cons.mp hcons
  have harm : dispatch (D := D) (Decoded.fromByte (byte0 v)) = handleWrite := by
    rw [hopcode]
    rcases hop with rfl | rfl <;> rfl
  rw [harm] at hwaits
  have hreads := write_reads hwaits (by
    have hlen := congrArg List.length htail
    simp at hlen
    omega)
  simpa [IsRead] using hreads

/-! ## Section 3: Resets -/

/-- **Resets resynchronise.** Wherever a session waits, with whatever part
    `got` of a read, at most 262 resets bring it back to the beginning of the
    loop, and every other one leaves it there.  A WRITE without checksum is
    rejected, and nothing else changes. -/
theorem resync (host : Host D F) (eof : Bool) (t : Tid) {es : List (Event (Eff.Res (D := D)))}
    {n : Nat} {k : Except IoError (Vector UInt8 n) → Code D (Flow Exit)} {got : List UInt8}
    (hwalk : Prog.Walk guestOnce es (.eff (.io (.readExact n)) k)) (hgot : got.length < n)
    (s : State D F) (out : List UInt8) :
    (∃ j ≤ 262, ∃ s' out', (Prog.eff (.io (.readExact n)) k).eval (answer host eof t)
        (s.world ⟨got ++ List.replicate j opReset1, out⟩) =
          some (.again, State.world s' ⟨[], out'⟩) ∧
      (WriteCut (input (turnsOf es) ++ got) → s' = s ∧ out' = out ++ [0xF3])) ∧
    ∀ (s' : State D F) rest out', guestOnce.eval (answer host eof t)
        (s'.world ⟨0xFF :: rest, out'⟩) = some (.again, s'.world ⟨rest, out'⟩) := by
  obtain ⟨j, hj, hfeed, hend⟩ := resets_end host eof t hwalk hgot
  refine ⟨⟨j, hj, ?_⟩, reset_idle⟩
  by_cases hcut : WriteCut (input (turnsOf es) ++ got)
  · exact ⟨s, out ++ [0xF3], resets_reject hwalk hfeed hcut s out, fun _ => ⟨rfl, rfl⟩⟩
  · obtain ⟨s', out', heval⟩ := hend s out
    exact ⟨s', out', heval, fun h => absurd h hcut⟩

/-- A WRITE of which only the opcode has been read completely. -/
def writeBegun : List (Event (Eff.Res (D := Unit))) := [⟨.io (.readExact 1), .ok #v[0x57]⟩]

theorem writeBegun_waits : ∃ k, Prog.Walk guestOnce writeBegun (.eff (.io (.readExact 4)) k) := by
  have harm : dispatch (D := Unit) (Decoded.fromByte (byte0 #v[0x57])) = handleWrite := rfl
  have hwalk : Prog.Walk (guestOnce (D := Unit)) writeBegun
      ((dispatch (Decoded.fromByte (byte0 #v[0x57]))).run >>= fun x => .ret (flowOf x)) := by
    have hbegin := Prog.Walk.refl (guestOnce (D := Unit))
    rw [guestOnce_eq] at hbegin ⊢
    exact hbegin.snoc (.ok #v[0x57])
  rw [harm, handleWrite, run_readExact_bind, Prog.eff_bind] at hwalk
  exact ⟨_, hwalk⟩

theorem resync_writeBegun : ∃ k, Prog.Walk guestOnce writeBegun (.eff (.io (.readExact 4)) k) ∧
    (∃ j ≤ 262, ∃ s' out', (Prog.eff (.io (.readExact 4)) k).eval
        (answer failingHost true (.guest 0))
        (oneDisk.world ⟨[0, 7] ++ List.replicate j opReset1, []⟩) =
          some (.again, State.world s' ⟨[], out'⟩) ∧
      (WriteCut (input (turnsOf writeBegun) ++ [0, 7]) → s' = oneDisk ∧ out' = [] ++ [0xF3])) ∧
    ∀ (s' : State Unit Unit) rest out', guestOnce.eval (answer failingHost true (.guest 0))
        (s'.world ⟨0xFF :: rest, out'⟩) = some (.again, s'.world ⟨rest, out'⟩) := by
  obtain ⟨k, hk⟩ := writeBegun_waits
  exact ⟨k, hk, resync failingHost true (.guest 0) hk (by decide) oneDisk []⟩

example : WriteCut (input (turnsOf writeBegun) ++ [0, 7]) :=
  ⟨0x57, [0, 7], rfl, .inl rfl, by decide⟩

end DriveWire
