import DriveWire.Async.Dialogue
import DriveWire.Server.Framing

/-! # What a Guest Session Says

    The dialogue of a session: for every command, how many bytes the server
    reads and how many it writes.  It depends on the bytes of the guest and on
    nothing else.  Section 2 proves that `Server::run` keeps to it, whatever
    drives, queues, disks and the clock answer; that it changes nothing
    before it has read the last byte of a command; and that it never reads
    while it holds a lock. -/

namespace DriveWire

open Async Server Solo

/-! ## Section 1: The dialogue -/

open Dialogue in
/-- The arm of the dispatch for an opcode, as a dialogue. -/
def arm : Decoded → Dialogue UInt8
  | .op .read | .op .reread => get 4 fun _ => put 256 (put 2 done)
  | .op .readEx | .op .rereadEx => get 4 fun _ => put 256 (get 2 fun _ => put 1 done)
  | .op .write | .op .rewrite => get 4 fun _ => get 256 fun _ => get 2 fun _ => put 1 done
  | .op .dwInit => get 1 fun _ => put 1 done
  | .op .time => put 6 done
  | .op .getStat | .op .setStat | .op .serGetStat | .op .serWrite => get 2 fun _ => done
  | .op .print | .op .serInit | .op .serTerm | .fastWrite _ => get 1 fun _ => done
  | .op .serRead => put 2 done
  | .op .serReadM => get 2 fun p => put (p.getD 1 0).toNat done
  | .op .serWriteM => get 2 fun p => get (p.getD 1 0).toNat fun _ => done
  | .op .serSetStat => get 2 fun p =>
    if p.getD 1 0 = Ss.comst then get Ss.comstPayloadLen fun _ => done else done
  | _ => done

/-- One iteration of the loop of `run`, as a dialogue. -/
def session : Dialogue UInt8 := .get 1 fun bs => arm (Decoded.fromByte (bs.headD 0))

/-- Where a session is in an iteration: whether it waits for the opcode,
    which lock it holds, and what remains to be said. -/
inductive Stage where
  | talk   : Bool → Option Lock → Dialogue UInt8 → Stage
  | failed : Option Lock → ServerError → Stage

variable {D : Type}

/-- The scope changes data. -/
def Op.Changes : Op D → Prop
  | .driveGet _ | .driveRows | .inboxLens | .outboxLens | .openClone => False
  | _ => True

/-- What is allowed while `d` remains and the lock `held` is held. -/
def Dialogue.Allows (held : Option Lock) (d : Dialogue UInt8) : Eff D → Prop
  | .io (.readExact n) => held = none ∧ ∃ k, d = .get n k
  | .io (.writeAll bs) => ∃ d', d = .put bs.length d'
  | .lock _ _ => held = none
  | .unlock l => held = some l
  | .op o => held = some o.lock ∧ (o.Changes → d.GetFree)
  | .sys (.diskRead _ _) | .sys .nowLocal | .sys .nowUtc => True
  | .sys (.diskWrite _ _ _) | .notifyOne _ => d.GetFree
  | _ => False

def Stage.Allows : Stage → Eff D → Prop
  | .talk _ held d, e => Dialogue.Allows held d e
  -- only the guard is left to be dropped
  | .failed held _, e => ∃ l, e = .unlock l ∧ held = some l

def Stage.afterRead {n : Nat} : Stage → Except IoError (Vector UInt8 n) → Stage
  | .talk _ held (.get _ k), .ok v => .talk false held (k v.toList)
  | .talk first held _, .error x =>
    .failed held (if first ∧ x.kind = .unexpectedEof then .eof else .io x)
  | s, _ => s

def Stage.afterWrite : Stage → Except IoError Unit → Stage
  | .talk first held (.put _ d), .ok () => .talk first held d
  | .talk _ held _, .error x => .failed held (.io x)
  | s, _ => s

def Stage.hold (held : Option Lock) : Stage → Stage
  | .talk first _ d => .talk first held d
  | .failed _ x => .failed held x

def Stage.next (s : Stage) : (e : Eff D) → e.Res → Stage
  | .io (.readExact _), r => s.afterRead r
  | .io (.writeAll _), r => s.afterWrite r
  | .lock l _, _ => s.hold (some l)
  | .unlock _, _ => s.hold none
  | _, _ => s

/-- Keeping to the dialogue. -/
def talks : Protocol (Eff D) Eff.Res Stage where
  allows := Stage.Allows
  admits := fun _ _ _ => True
  next   := Stage.next

/-- How a handler may end: everything said, or an error. -/
def Stage.Ends : Except ServerError Unit → Stage → Prop
  | .ok (), s => s = .talk false none .done
  | .error x, s => s = .failed none x

/-- How an iteration may end. -/
def Stage.Leaves : Flow Exit → Stage → Prop
  | .again, s => s = .talk false none .done
  | .done x, s => ∃ e, s = .failed none e ∧ x = .session e

theorem Stage.Ends.leaves {r : Except ServerError Unit} {s : Stage} (h : s.Ends r) :
    s.Leaves (flowOf r) := by
  cases r with
  | ok u => exact h
  | error x => exact ⟨x, h, rfl⟩

/-! ## Section 2: The handlers keep to it -/

/-- From between two reads, the handler says what remains of `d`. -/
def Talks (x : Handler D Unit) (d : Dialogue UInt8) : Prop :=
  x.run.Obeys talks (.talk false none d) Stage.Ends

/-- The code says nothing. -/
def Inside {α : Type} (c : Code D α) (d : Dialogue UInt8) : Prop :=
  c.Obeys talks (.talk false none d) (fun _ s => s = .talk false none d)

variable {α β : Type} {d : Dialogue UInt8}

theorem inside_return (a : α) : Inside (return a : Code D α) d := rfl

theorem Inside.bind {c : Code D α} {f : α → Code D β} (hc : Inside c d)
    (hf : ∀ a, Inside (f a) d) : Inside (c >>= f) d := by
  refine Prog.Obeys.bind hc fun a s hs => ?_
  subst hs
  exact hf a

/-- A scope that changes data comes after the last read. -/
theorem inside_guarded (m : Mode) (o : Op D) (h : o.Changes → d.GetFree) :
    Inside (guarded m o) d := by
  rw [guarded_eq]
  exact ⟨rfl, fun _ _ => ⟨⟨rfl, h⟩, fun _ _ => ⟨rfl, fun _ _ => rfl⟩⟩⟩

theorem inside_pushVserial (channel byte : UInt8) :
    Inside (pushVserial channel byte : Code D Unit) .done := by
  by_cases h : channel.toNat < vserialChannels
  · rw [pushVserial, dif_pos h]
    refine Inside.bind (inside_guarded _ _ fun _ => trivial) fun _ => ?_
    exact ⟨trivial, fun _ _ => rfl⟩
  · rw [pushVserial, dif_neg h]
    exact inside_return ()

theorem inside_setChannelOpen (channel : UInt8) (b : Bool) :
    Inside (setChannelOpen channel b : Code D Unit) .done := by
  by_cases h : channel.toNat < vserialChannels
  · rw [setChannelOpen, dif_pos h]
    exact inside_guarded _ _ fun _ => trivial
  · rw [setChannelOpen, dif_neg h]
    exact inside_return ()

/-- Looking a sector up changes nothing, so more can be read after it. -/
theorem inside_fetchSector (slot : UInt8) (lsn : Lsn) :
    Inside (fetchSector slot lsn : Code D Sector) d := by
  have hlookup : Inside (driveAt (D := D) slot) d :=
    inside_guarded .shared (.driveGet slot) fun h => h.elim
  refine hlookup.bind fun disk => ?_
  cases disk with
  | none => exact inside_return _
  | some d =>
    refine ⟨trivial, fun r _ => ?_⟩
    cases r <;> rfl

theorem inside_storeSector (slot : UInt8) (lsn : Lsn) (sector : Sector) (hd : d.GetFree) :
    Inside (storeSector slot lsn sector : Code D UInt8) d := by
  have hlookup : Inside (driveAt (D := D) slot) d :=
    inside_guarded .shared (.driveGet slot) fun h => h.elim
  refine hlookup.bind fun disk => ?_
  cases disk with
  | none => exact inside_return _
  | some d =>
    refine ⟨hd, fun r _ => ?_⟩
    cases r <;> rfl

theorem talks_return : Talks (return () : Handler D Unit) .done := rfl

theorem talks_readExact {n : Nat} {f : Vector UInt8 n → Handler D Unit}
    {k : List UInt8 → Dialogue UInt8} (hf : ∀ v, Talks (f v) (k v.toList)) :
    Talks (readExact n >>= f) (.get n k) := by
  rw [Talks, run_readExact_bind]
  refine ⟨⟨rfl, k, rfl⟩, fun r _ => ?_⟩
  cases r with
  | ok v => exact hf v
  | error e => rfl

theorem talks_writeAll_bind {bs : List UInt8} {f : Unit → Handler D Unit} (hf : Talks (f ()) d) :
    Talks (writeAll bs >>= f) (.put bs.length d) := by
  rw [Talks, run_writeAll_bind]
  refine ⟨⟨d, rfl⟩, fun r _ => ?_⟩
  cases r with
  | ok u => exact hf
  | error e => rfl

theorem talks_writeAll (bs : List UInt8) :
    Talks (writeAll bs : Handler D Unit) (.put bs.length .done) := by
  have h : Talks (writeAll bs >>= fun _ => (return () : Handler D Unit)) (.put bs.length .done) :=
    talks_writeAll_bind talks_return
  rwa [bind_pure_unit] at h

theorem talks_call_of {c : Code D α} {f : α → Handler D Unit} {Q : α → Prop}
    (hc : c.Obeys talks (.talk false none d) (fun a s => s = .talk false none d ∧ Q a))
    (hf : ∀ a, Q a → Talks (f a) d) : Talks (call c >>= f) d := by
  rw [Talks, run_call_bind]
  refine Prog.Obeys.bind hc fun a s hs => ?_
  obtain ⟨rfl, ha⟩ := hs
  exact hf a ha

theorem talks_call {c : Code D α} {f : α → Handler D Unit} (hc : Inside c d)
    (hf : ∀ a, Talks (f a) d) : Talks (call c >>= f) d := by
  apply talks_call_of (Q := fun _ => True)
  · exact hc.mono fun _ _ hs => ⟨hs, trivial⟩
  · exact fun a _ => hf a

theorem talks_call_end {c : Code D Unit} (hc : Inside c .done) : Talks (call c) .done := by
  have h := talks_call hc fun _ => talks_return
  rwa [bind_pure_unit] at h

theorem handleRead_talks : Talks (handleRead (D := D) false) (arm (.op .read)) := by
  refine talks_readExact fun hdr => talks_call (inside_fetchSector _ _) fun sector => ?_
  have hlen : sector.toList.length = 256 := sector.length_toList
  rw [← hlen]
  exact talks_writeAll_bind (talks_writeAll (u16ToBe _).toList)

theorem handleReadEx_talks : Talks (handleRead (D := D) true) (arm (.op .readEx)) := by
  refine talks_readExact fun hdr => talks_call (inside_fetchSector _ _) fun sector => ?_
  have hlen : sector.toList.length = 256 := sector.length_toList
  rw [← hlen]
  exact talks_writeAll_bind (talks_readExact fun sum => talks_writeAll [_])

theorem handleWrite_talks : Talks (handleWrite (D := D)) (arm (.op .write)) := by
  refine talks_readExact fun hdr => talks_readExact fun sector => talks_readExact fun sum => ?_
  split
  · exact talks_writeAll [_]
  · -- everything has been read when the disk is looked up
    refine talks_call (inside_storeSector _ _ _ trivial) fun status => ?_
    exact talks_writeAll [status]

theorem handleSerread_talks : Talks (handleSerread (D := D)) (arm (.op .serRead)) := by
  rw [Talks, handleSerread_eq]
  refine ⟨rfl, fun _ _ => ⟨⟨rfl, fun _ => trivial⟩, fun found _ => ?_⟩⟩
  refine ⟨⟨.done, ?_⟩, fun r _ => ?_⟩
  · cases found <;> rfl
  -- the lock is released whether the reply was written or not
  · cases r with
    | ok u => exact ⟨rfl, fun _ _ => rfl⟩
    | error e => exact ⟨⟨_, rfl, rfl⟩, fun _ _ => rfl⟩

theorem handleSerreadm_talks : Talks (handleSerreadm (D := D)) (arm (.op .serReadM)) := by
  refine talks_readExact fun p => ?_
  have hcount : (p.toList.getD 1 0).toNat = (byte1 p).toNat := by
    rw [toList_two]
    rfl
  rw [hcount]
  refine talks_call_of (Q := fun buf => buf.length = (byte1 p).toNat) ?_ fun buf hbuf => ?_
  · -- as many bytes as were asked for, from whatever the queue holds
    unfold popPadded
    split
    · refine Prog.Obeys.bind (inside_guarded _ _ fun _ => trivial) fun popped s hs => ⟨hs, ?_⟩
      simp
    · exact ⟨rfl, by simp⟩
  · rw [← hbuf]
    exact talks_writeAll buf

theorem handleSerwritem_talks : Talks (handleSerwritem (D := D)) (arm (.op .serWriteM)) := by
  refine talks_readExact fun hdr => ?_
  have hcount : (hdr.toList.getD 1 0).toNat = (byte1 hdr).toNat := by
    rw [toList_two]
    rfl
  rw [hcount]
  refine talks_readExact fun buf => ?_
  split
  · exact talks_call_end (inside_guarded _ _ fun _ => trivial)
  · exact talks_return

theorem handleSersetstat_talks : Talks (handleSersetstat (D := D)) (arm (.op .serSetStat)) := by
  refine talks_readExact fun hdr => ?_
  have hcode : hdr.toList.getD 1 0 = byte1 hdr := by
    rw [toList_two]
    rfl
  rw [hcode]
  by_cases hcomst : byte1 hdr = Ss.comst
  · rw [if_neg (by rw [hcomst]; decide), if_neg (by rw [hcomst]; decide), if_pos hcomst,
      if_pos hcomst]
    exact talks_readExact fun _ => talks_return
  · rw [if_neg hcomst, if_neg hcomst]
    split
    · exact talks_call_end (inside_setChannelOpen _ _)
    split
    · exact talks_call_end (inside_setChannelOpen _ _)
    · exact talks_return

theorem handleTime_talks : Talks (handleTime (D := D)) (arm (.op .time)) := by
  have hsys : ∀ (y : Sys D) (d : Dialogue UInt8), (y = .nowLocal ∨ y = .nowUtc) →
      Inside (await (.sys y)) d := by
    rintro y d (rfl | rfl) <;> exact ⟨trivial, fun _ _ => rfl⟩
  refine talks_call (hsys _ _ (.inl rfl)) fun now => ?_
  cases now with
  | some now => exact talks_writeAll (timeReply now)
  | none =>
    refine talks_call (hsys _ _ (.inr rfl)) fun now => ?_
    exact talks_writeAll (timeReply now)

/-- Every arm of the dispatch keeps to its dialogue. -/
theorem dispatch_talks (d : Decoded) : Talks (dispatch (D := D) d) (arm d) := by
  cases d with
  | unknown b => exact talks_return
  | fastWrite channel =>
    exact talks_readExact fun _ => talks_call_end (inside_pushVserial _ _)
  | op o =>
    cases o with
    | read | reread => exact handleRead_talks
    | readEx | rereadEx => exact handleReadEx_talks
    | write | rewrite => exact handleWrite_talks
    | dwInit => exact talks_readExact fun _ => talks_writeAll [_]
    | time => exact handleTime_talks
    | getStat | setStat | serGetStat => exact talks_readExact fun _ => talks_return
    | print =>
      exact talks_readExact fun _ => talks_call_end (inside_guarded _ _ fun _ => trivial)
    | printFlush =>
      exact talks_call (inside_guarded _ _ fun _ => trivial) fun _ => talks_return
    | serInit | serTerm =>
      exact talks_readExact fun _ => talks_call_end (inside_setChannelOpen _ _)
    | serWrite => exact talks_readExact fun _ => talks_call_end (inside_pushVserial _ _)
    | serRead => exact handleSerread_talks
    | serReadM => exact handleSerreadm_talks
    | serWriteM => exact handleSerwritem_talks
    | serSetStat => exact handleSersetstat_talks
    | nop | init | term | reset1 | reset2 | reset3 | wirebugMode => exact talks_return

/-- **Sessions keep to the dialogue.** -/
theorem guestOnce_talks :
    (guestOnce (D := D)).Obeys talks (.talk true none session) Stage.Leaves := by
  refine Prog.obeys_bind.mpr ?_
  rw [runOnce_eq]
  refine ⟨⟨rfl, _, rfl⟩, fun r _ => ?_⟩
  cases r with
  | ok v =>
    have hopcode : v.toList.headD 0 = byte0 v := by
      rw [toList_one]
      rfl
    show (dispatch (Decoded.fromByte (byte0 v))).run.Obeys talks
      (.talk false none (arm (Decoded.fromByte (v.toList.headD 0)))) _
    rw [hopcode]
    exact (dispatch_talks _).mono fun _ _ h => h.leaves
  | error e =>
    refine ⟨_, ?_, rfl⟩
    simp [talks, Stage.next, Stage.afterRead]

/-! ## Section 3: How a session ends -/

/-- The transport has failed, and with it the session that `e` ends. -/
def FailsWith (e : ServerError) : Event (Eff.Res (D := D)) → Prop
  | ⟨.io (.readExact _), .error x⟩ =>
    e = .io x ∨ x.kind = .unexpectedEof ∧ e = .eof
  | ⟨.io (.writeAll _), .error x⟩ => e = .io x
  | _ => False

theorem Stage.hold_failed {s : Stage} {held held' : Option Lock} {x : ServerError}
    (h : s.hold held' = .failed held x) : ∃ held'', s = .failed held'' x := by
  cases s with
  | talk first held d => cases h
  | failed held'' y =>
    cases h
    exact ⟨_, rfl⟩

/-- An event fails a session that has not failed yet only if it is a failure
    of the transport. -/
theorem Stage.next_failed {s : Stage} {e : Eff D} {r : e.Res} {held : Option Lock}
    {x : ServerError} (h : s.next e r = .failed held x) :
    (∃ held', s = .failed held' x) ∨ FailsWith x ⟨e, r⟩ := by
  cases e with
  | io i =>
    cases i with
    | readExact n =>
      cases s with
      | failed held' y =>
        have hsame : Stage.failed held' y = .failed held x := by
          cases r <;> exact h
        cases hsame
        exact .inl ⟨_, rfl⟩
      | talk first held' d =>
        cases r with
        | ok v => cases d <;> cases h
        | error y =>
          right
          have hfailed : Stage.failed held' (if first ∧ y.kind = .unexpectedEof then .eof
              else .io y) = .failed held x := by
            cases d <;> exact h
          injection hfailed with _ hx
          subst hx
          -- the end of the stream at an opcode is `Eof`, elsewhere it is an I/O error
          by_cases heof : first = true ∧ y.kind = .unexpectedEof
          · exact .inr ⟨heof.2, if_pos heof⟩
          · exact .inl (if_neg heof)
    | writeAll bs =>
      cases s with
      | failed held' y =>
        have hsame : Stage.failed held' y = .failed held x := by
          cases r <;> exact h
        cases hsame
        exact .inl ⟨_, rfl⟩
      | talk first held' d =>
        cases r with
        | ok u => cases d <;> cases h
        | error y =>
          have hfailed : Stage.failed held' (.io y) = .failed held x := by
            cases d <;> exact h
          cases hfailed
          exact .inr rfl
    | _ => exact .inl ⟨held, h⟩
  | lock l m => exact .inl (Stage.hold_failed h)
  | unlock l => exact .inl (Stage.hold_failed h)
  | _ => exact .inl ⟨held, h⟩

theorem failed_after {es : List (Event (Eff.Res (D := D)))} {s : Stage} {held : Option Lock}
    {x : ServerError} (h : Prog.after talks s es = .failed held x) :
    (∃ held', s = .failed held' x) ∨ ∃ ev ∈ es, FailsWith x ev := by
  induction es using List.reverseRecOn generalizing held with
  | nil => exact .inl ⟨held, h⟩
  | append_singleton es ev ih =>
    obtain ⟨e, r⟩ := ev
    rw [Prog.after_snoc] at h
    rcases Stage.next_failed h with ⟨held', hbefore⟩ | hnow
    · rcases ih hbefore with hstart | ⟨ev, hev, hfails⟩
      · exact .inl hstart
      · exact .inr ⟨ev, List.mem_append_left _ hev, hfails⟩
    · exact .inr ⟨_, List.mem_append_right _ (List.mem_singleton_self _), hnow⟩

/-- **A session ends only when its transport has failed.** -/
theorem guestOnce_done {es : List (Event (Eff.Res (D := D)))} {x : Exit}
    (h : Prog.Walk guestOnce es (.ret (.done x))) :
    ∃ e, x = .session e ∧ ∃ ev ∈ es, FailsWith e ev := by
  have hleaves : Stage.Leaves (.done x) (Prog.after talks (.talk true none session) es) :=
    h.obeys (fun _ _ _ => trivial) guestOnce_talks
  obtain ⟨e, hfailed, rfl⟩ := hleaves
  obtain ⟨_, hstart⟩ | hfails := failed_after hfailed
  · cases hstart
  · exact ⟨e, rfl, hfails⟩

/-! ## Section 4: Complete commands -/

/-- A dialogue that only reads ends with its last byte. -/
theorem feed_get_done (n : Nat) (input : List UInt8) :
    (Dialogue.get n fun _ => .done).feed input = some [] ↔ input.length = n := by
  rw [Dialogue.feed_get]
  split
  · rw [Dialogue.feed_done, Option.some_inj, List.drop_eq_nil_iff]
    omega
  · simp
    omega

theorem feed_get_eq_nil {n : Nat} {k : List UInt8 → Dialogue UInt8} {input : List UInt8} :
    (Dialogue.get n k).feed input = some [] ↔
      n ≤ input.length ∧ (k (input.take n)).feed (input.drop n) = some [] := by
  rw [Dialogue.feed_get]
  split
  · simp [*]
  · simp [*]

theorem getD_take_two (payload : List UInt8) : (payload.take 2).getD 1 0 = payload.getD 1 0 := by
  simp [List.getD]

/-- The dialogue of an opcode reads exactly a complete payload. -/
theorem feed_arm (d : Decoded) (payload : List UInt8) :
    (arm d).feed payload = some [] ↔ payload.length = (Decoded.payload d).length payload := by
  have hnone : (Dialogue.done : Dialogue UInt8).feed payload = some [] ↔ payload.length = 0 := by
    rw [Dialogue.feed_done, Option.some_inj, List.length_eq_zero_iff]
  cases d with
  | unknown b => exact hnone
  | fastWrite c => exact feed_get_done 1 payload
  | op o =>
    -- one `get` for most opcodes; two or three for the commands on sectors
    cases o with
    | read | reread => exact feed_get_done 4 payload
    | dwInit | print | serInit | serTerm => exact feed_get_done 1 payload
    | getStat | setStat | serGetStat | serWrite => exact feed_get_done 2 payload
    | serReadM => exact feed_get_done 2 payload
    | nop | init | term | reset1 | reset2 | reset3 | wirebugMode => exact hnone
    | time | serRead | printFlush => exact hnone
    | readEx | rereadEx =>
      refine feed_get_eq_nil.trans ?_
      refine (and_congr_right fun _ => feed_get_done 2 _).trans ?_
      simp [Decoded.payload, Payload.length]
      omega
    | write | rewrite =>
      refine feed_get_eq_nil.trans ?_
      refine (and_congr_right fun _ => feed_get_eq_nil).trans ?_
      refine (and_congr_right fun _ => and_congr_right fun _ => feed_get_done 2 _).trans ?_
      simp [Decoded.payload, Payload.length]
      omega
    | serWriteM =>
      refine feed_get_eq_nil.trans ?_
      refine (and_congr_right fun _ => feed_get_done _ _).trans ?_
      rw [getD_take_two, List.length_drop]
      show _ ↔ payload.length = 2 + (payload.getD 1 0).toNat
      omega
    | serSetStat =>
      refine feed_get_eq_nil.trans ?_
      rw [getD_take_two]
      show _ ↔ payload.length = 2 + if payload.getD 1 0 = Ss.comst then Ss.comstPayloadLen else 0
      split
      · rw [feed_get_done, List.length_drop]
        omega
      · rw [Dialogue.feed_done, Option.some_inj, List.drop_eq_nil_iff]
        omega

/-! ## Section 5: A session on a wire

    On a wire, a program that keeps to its dialogue comes to its end if the
    wire holds all that the dialogue reads.  If not, and the wire has been
    closed, it ends in an error and has changed nothing. -/

/-- The guards of a task that holds at most the lock `held`. -/
def Guards (t : Tid) (holders : Lock → List (Tid × Mode)) : Option Lock → Prop
  | none => holders = fun _ => []
  | some l => ∃ m, holders = Function.update (fun _ => []) l [(t, m)]

section wire

variable {F : Type} {host : Host D F} {eof : Bool} {t : Tid}

/-- A world between two commands, except for the guards. -/
def Solo.State.worldWith (s : State D F) (wire : Wire) (holders : Lock → List (Tid × Mode)) :
    World D F Wire :=
  { s.world wire with holders := holders }

variable (host eof) in
/-- A lock is taken when none is held. -/
theorem answer_lock {holders : Lock → List (Tid × Mode)} (h : Guards t holders none)
    (s : State D F) (wire : Wire) (l : Lock) (m : Mode) :
    ∃ holders', Guards t holders' (some l) ∧
      answer host eof t (.lock l m) (s.worldWith wire holders) =
        some ((), s.worldWith wire holders') := by
  have hnone : holders = fun _ => [] := h
  subst hnone
  exact ⟨_, ⟨m, rfl⟩, by simp [answer, State.worldWith, World.acquire]⟩

variable (host eof) in
/-- A held lock is released. -/
theorem answer_unlock {holders : Lock → List (Tid × Mode)} {l : Lock}
    (h : Guards t holders (some l)) (s : State D F) (wire : Wire) :
    ∃ holders', Guards t holders' none ∧
      answer host eof t (.unlock l) (s.worldWith wire holders) =
        some ((), s.worldWith wire holders') := by
  obtain ⟨m, rfl⟩ := h
  refine ⟨fun _ => [], rfl, ?_⟩
  simp [answer, State.worldWith, World.release]

variable (host eof) in
/-- A read takes what it asks for from the wire. -/
theorem answer_readExact {n : Nat} {input : List UInt8} (hn : n ≤ input.length)
    (holders : Lock → List (Tid × Mode)) (s : State D F) (out : List UInt8) :
    answer host eof t (.io (.readExact n)) (s.worldWith ⟨input, out⟩ holders) =
      some (.ok (takeVector n input hn), s.worldWith ⟨input.drop n, out⟩ holders) := by
  simp [answer, State.worldWith, State.world, Wire.answer, hn]

theorem Op.run_unchanged {o : Op D} (h : ¬ o.Changes) (s : Server D) : (o.run s).2 = s := by
  cases o with
  | driveGet | driveRows | inboxLens | outboxLens | openClone => rfl
  | _ => exact absurd trivial h

/-- Disk reads and the clock. -/
def Sys.Reads : Sys D → Prop
  | .diskRead _ _ | .nowLocal | .nowUtc => True
  | _ => False

variable (host) in
/-- What the state may become before the last read. -/
inductive Looked (s : State D F) : State D F → Prop where
  | same : Looked s s
  | sys (y : Sys D) (hy : y.Reads) : Looked s { s with sys := (host y s.sys).2 }

variable (host eof) in
/-- **Step lemma**: on a wire every effect of a dialogue but a read is answered,
    and what is left to read stays the same.  Whatever changes data comes after
    the last read. -/
theorem answer_talks (first : Bool) {held : Option Lock} {d : Dialogue UInt8} {e : Eff D}
    (hallow : Dialogue.Allows held d e) {holders : Lock → List (Tid × Mode)}
    (hheld : Guards t holders held) (s : State D F) (input out : List UInt8) :
    (∃ n k, e = .io (.readExact n) ∧ held = none ∧ d = .get n k) ∨
    ∃ r s' more holders' held' d',
      answer host eof t e (s.worldWith ⟨input, out⟩ holders) =
        some (r, State.worldWith s' ⟨input, out ++ more⟩ holders') ∧
      Stage.next (.talk first held d) e r = .talk first held' d' ∧ Guards t holders' held' ∧
      d'.feed = d.feed ∧ (d.GetFree ∨ Looked host s s') := by
  cases e with
  | io i =>
    cases i with
    | readExact n =>
      obtain ⟨hnone, k, hd⟩ := hallow
      exact .inl ⟨n, k, rfl, hnone, hd⟩
    | writeAll bs =>
      obtain ⟨d', rfl⟩ := hallow
      exact .inr ⟨.ok (), s, bs, holders, held, d', rfl, rfl, hheld, rfl, .inr .same⟩
    | read n => exact hallow.elim
    | nextLine => exact hallow.elim
    | nextCall => exact hallow.elim
  | lock l m =>
    cases (hallow : held = none)
    obtain ⟨holders', hheld', hanswer⟩ := answer_lock host eof hheld s ⟨input, out⟩ l m
    refine .inr ⟨(), s, [], holders', some l, d, ?_, rfl, hheld', rfl, .inr .same⟩
    rw [List.append_nil]
    exact hanswer
  | unlock l =>
    cases (hallow : held = some l)
    obtain ⟨holders', hheld', hanswer⟩ := answer_unlock host eof hheld s ⟨input, out⟩
    refine .inr ⟨(), s, [], holders', none, d, ?_, rfl, hheld', rfl, .inr .same⟩
    rw [List.append_nil]
    exact hanswer
  | op o =>
    refine .inr ⟨(o.run s.server).1, { s with server := (o.run s.server).2 }, [], holders, held,
      d, ?_, rfl, hheld, rfl, ?_⟩
    · rw [List.append_nil]
      rfl
    · by_cases ho : o.Changes
      · exact .inl (hallow.2 ho)
      · rw [Op.run_unchanged ho]
        exact .inr .same
  | sys y =>
    refine .inr ⟨(host y s.sys).1, { s with sys := (host y s.sys).2 }, [], holders, held, d, ?_,
      rfl, hheld, rfl, ?_⟩
    · rw [List.append_nil]
      rfl
    · cases y with
      | diskWrite d' lsn data => exact .inl hallow
      | diskOpen path readOnly => exact hallow.elim
      | diskRead d' lsn => exact .inr (.sys _ trivial)
      | nowLocal => exact .inr (.sys _ trivial)
      | nowUtc => exact .inr (.sys _ trivial)
  | notifyOne c =>
    refine .inr ⟨(), { s with notify := Function.update s.notify c (s.notify c).notifyOne }, [],
      holders, held, d, ?_, rfl, hheld, rfl, .inl hallow⟩
    rw [List.append_nil]
    rfl
  | notified c => exact hallow.elim
  | never => exact hallow.elim
  | spawn u => exact hallow.elim
  | select u v => exact hallow.elim

/-- **Enough input**: the program ends its iteration, and leaves the rest of
    the input on the wire. -/
theorem eval_talks {p : Code D (Flow Exit)} {first : Bool} {held : Option Lock}
    {d : Dialogue UInt8} (hp : p.Obeys talks (.talk first held d) Stage.Leaves)
    {holders : Lock → List (Tid × Mode)} (hheld : Guards t holders held) {input rest : List UInt8}
    (hfeed : d.feed input = some rest) (s : State D F) (out : List UInt8) :
    ∃ s' out', p.eval (answer host eof t) (State.worldWith s ⟨input, out⟩ holders) =
      some (.again, State.world s' ⟨rest, out'⟩) := by
  -- induction on the program: the wire holds what the rest of the dialogue reads
  induction p generalizing first held d holders input s out with
  | ret a =>
    cases a with
    | done x =>
      obtain ⟨e, he, -⟩ := hp
      cases he
    | again =>
      cases (hp : Stage.talk first held d = .talk false none .done)
      cases (hheld : holders = fun _ => [])
      cases (hfeed : some input = some rest)
      exact ⟨s, out, rfl⟩
  | eff e k ih =>
    obtain ⟨hallow, hnext⟩ := hp
    rw [Prog.eval_eff]
    rcases answer_talks host eof first hallow hheld s input out with
      ⟨n, k', rfl, rfl, rfl⟩ | ⟨r, s', more, holders', held', d', hanswer, hstage, hheld', hd, -⟩
    · rw [Dialogue.feed_get] at hfeed
      split at hfeed
      · rename_i hn
        rw [answer_readExact host eof hn]
        exact ih _ (hnext _ trivial) hheld hfeed s out
      · cases hfeed
    · rw [hanswer]
      have hobeys := hnext r trivial
      rw [show talks.next _ e r = _ from hstage] at hobeys
      exact ih r hobeys hheld' (by rw [hd]; exact hfeed) s' (out ++ more)

/-- A task that has failed and holds no lock has nothing left to do. -/
theorem ret_of_failed {p : Code D (Flow Exit)} {x : ServerError}
    (hp : p.Obeys talks (.failed none x) Stage.Leaves) : p = .ret (.done (.session x)) := by
  cases p with
  | ret a =>
    cases a with
    | again => cases hp
    | done y =>
      obtain ⟨e, he, rfl⟩ := hp
      cases he
      rfl
  | eff e k =>
    obtain ⟨⟨l, -, hl⟩, -⟩ := hp
    cases hl

/-- **Too little input**: the wire is drained, the iteration ends in an
    error, and nothing has changed, except for what disk reads change. -/
theorem eval_starves {I : Type} {images : F → I}
    (hreads : ∀ (y : Sys D) f, y.Reads → images (host y f).2 = images f)
    {p : Code D (Flow Exit)} {held : Option Lock} {d : Dialogue UInt8}
    (hp : p.Obeys talks (.talk false held d) Stage.Leaves)
    {holders : Lock → List (Tid × Mode)} (hheld : Guards t holders held) {input : List UInt8}
    (hfeed : d.feed input = none) (s : State D F) (out : List UInt8) :
    ∃ f out', p.eval (answer host true t) (s.worldWith ⟨input, out⟩ holders) =
        some (.done (.session (.io earlyEof)), { s with sys := f }.world ⟨[], out ++ out'⟩) ∧
      images f = images s.sys := by
  induction p generalizing held d holders input s out with
  | ret a =>
    cases a with
    | done x =>
      obtain ⟨e, he, -⟩ := hp
      cases he
    | again =>
      cases (hp : Stage.talk false held d = .talk false none .done)
      cases hfeed
  | eff e k ih =>
    obtain ⟨hallow, hnext⟩ := hp
    -- there is a read to come
    have hread : ¬ d.GetFree := by
      intro hd
      rw [hd.feed] at hfeed
      cases hfeed
    rw [Prog.eval_eff]
    rcases answer_talks host true false hallow hheld s input out with
      ⟨n, k', rfl, rfl, rfl⟩ | ⟨r, s', more, holders', held', d', hanswer, hstage, hheld', hd, hs'⟩
    · rw [Dialogue.feed_get] at hfeed
      split at hfeed
      · rename_i hn
        rw [answer_readExact host true hn]
        exact ih _ (hnext _ trivial) hheld hfeed s out
      · rename_i hn
        cases (hheld : holders = fun _ => [])
        have hanswer : answer host true t (.io (.readExact n))
            (s.worldWith ⟨input, out⟩ fun _ => []) =
            some (.error earlyEof, s.world ⟨[], out⟩) := by
          simp [answer, State.worldWith, State.world, Wire.answer, hn]
        have hfail : k (.error earlyEof) = .ret (.done (.session (.io earlyEof))) :=
          ret_of_failed (hnext (.error earlyEof) trivial)
        refine ⟨s.sys, [], ?_, rfl⟩
        rw [hanswer, List.append_nil, Option.bind_some, hfail]
        rfl
    · rw [hanswer]
      have hobeys := hnext r trivial
      rw [show talks.next _ e r = _ from hstage] at hobeys
      obtain ⟨f, out', heval, hf⟩ :=
        ih r hobeys hheld' (by rw [hd]; exact hfeed) s' (out ++ more)
      rw [List.append_assoc] at heval
      cases hs'.resolve_left hread with
      | same => exact ⟨f, more ++ out', heval, hf⟩
      | sys y hy => exact ⟨f, more ++ out', heval, hf.trans (hreads y s.sys hy)⟩

end wire

end DriveWire
