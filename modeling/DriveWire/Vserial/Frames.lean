import DriveWire.Vserial.Fifo

/-! # What Guests Write

    The inboxes are filled by the FASTWRITE, SERWRITE and SERWRITEM frames of
    the guests and by nothing else.  Frame by frame, what a session has
    appended to the inbox of a channel is what its frames carry for it. -/

namespace DriveWire

open Async Server

variable {D F N : Type}

/-! ## Section 1: One frame -/

/-- The bytes for channel `c` in the payload of a decoded opcode. -/
def payloadBytes (c : Channel) : Decoded → List UInt8 → List UInt8
  | .fastWrite channel, [byte] => if channel.toNat = c.val then [byte] else []
  | .op .serWrite, [channel, byte] => if channel.toNat = c.val then [byte] else []
  | .op .serWriteM, channel :: count :: buf =>
    if channel.toNat = c.val ∧ buf.length = count.toNat then buf else []
  | _, _ => []

/-- The bytes for channel `c` in a frame of a guest, as far as it has been
    received. -/
def frameBytes (c : Channel) : List UInt8 → List UInt8
  | [] => []
  | opcode :: payload => payloadBytes c (Decoded.fromByte opcode) payload

theorem inboxIn_pushOp (c : Channel) (channel byte : UInt8) :
    ((pushOp channel byte : Option (Op D)).toList.flatMap (inboxIn c)) =
      if channel.toNat = c.val then [byte] else [] := by
  unfold pushOp
  by_cases hvalid : channel.toNat < vserialChannels
  · rw [dif_pos hvalid]
    simp [inboxIn, Fin.ext_iff]
  · have hne : channel.toNat ≠ c.val := by
      have hc := c.isLt
      omega
    rw [dif_neg hvalid, if_neg hne]
    rfl

/-- A frame stands for one operation, which appends what it carries. -/
theorem inboxIn_commandOp (c : Channel) (d : Decoded) (payload : List UInt8) :
    ((commandOp d payload : Option (Op D)).toList.flatMap (inboxIn c)) =
      payloadBytes c d payload := by
  cases d with
  | unknown b => rfl
  | fastWrite channel =>
    rcases payload with _ | ⟨byte, _ | ⟨x, rest⟩⟩
    · rfl
    · exact inboxIn_pushOp c channel byte
    · rfl
  | op o =>
    -- only these frames carry bytes for an inbox
    cases o with
    | serWrite =>
      rcases payload with _ | ⟨channel, _ | ⟨byte, _ | ⟨x, rest⟩⟩⟩
      · rfl
      · rfl
      · exact inboxIn_pushOp c channel byte
      · rfl
    | serWriteM =>
      rcases payload with _ | ⟨channel, _ | ⟨count, buf⟩⟩
      · rfl
      · rfl
      · show (if h : channel.toNat < vserialChannels ∧ buf.length = count.toNat then
            some (Op.inboxExtend ⟨channel.toNat, h.1⟩ buf)
            else none : Option (Op D)).toList.flatMap (inboxIn c) =
          if channel.toNat = c.val ∧ buf.length = count.toNat then buf else []
        have hc := c.isLt
        by_cases hvalid : channel.toNat < vserialChannels ∧ buf.length = count.toNat
        · rw [dif_pos hvalid]
          simp [inboxIn, Fin.ext_iff, hvalid.2]
        · have hnot : ¬ (channel.toNat = c.val ∧ buf.length = count.toNat) := by
            rintro ⟨heq, hlen⟩
            exact hvalid ⟨by omega, hlen⟩
          rw [dif_neg hvalid, if_neg hnot]
          rfl
    | serRead => rcases payload with _ | ⟨x, rest⟩ <;> rfl
    | serReadM =>
      rcases payload with _ | ⟨channel, _ | ⟨count, _ | ⟨x, rest⟩⟩⟩
      · rfl
      · rfl
      · show (if h : channel.toNat < vserialChannels then
            some (Op.outboxPop ⟨channel.toNat, h⟩ count.toNat)
            else none : Option (Op D)).toList.flatMap (inboxIn c) = []
        split <;> rfl
      · rfl
    | _ => rfl

/-! ## Section 2: One task -/

/-- What an effect appends to the inbox of channel `c`. -/
def written (c : Channel) : Event (E := Eff D) Eff.Res → List UInt8
  | ⟨.op o, _⟩ => inboxIn c o
  | _ => []

theorem add_written (c : Channel) (b : Block D) (ev : Event (E := Eff D) Eff.Res) :
    ((b.add ev.1 ev.2).did.flatMap fun x => inboxIn c x.1) =
      (b.did.flatMap fun x => inboxIn c x.1) ++ written c ev := by
  obtain ⟨e, r⟩ := ev
  cases e with
  | op o =>
    simp only [Block.add, written]
    split
    · simp
    · rename_i ho
      cases o <;> first | exact absurd rfl ho | exact (List.append_nil _).symm
  | io i =>
    cases i with
    | readExact n => cases r <;> exact (List.append_nil _).symm
    | read n => cases r <;> exact (List.append_nil _).symm
    | writeAll bs => cases r <;> exact (List.append_nil _).symm
    | _ => exact (List.append_nil _).symm
  | _ => exact (List.append_nil _).symm

theorem blockOf_written (c : Channel) (es : List (Event (E := Eff D) Eff.Res)) :
    es.flatMap (written c) = (blockOf es).did.flatMap fun x => inboxIn c x.1 := by
  induction es using List.reverseRecOn with
  | nil => rfl
  | append_singleton es ev ih =>
    have hlast : blockOf (es ++ [ev]) = (blockOf es).add ev.1 ev.2 := by
      simp [blockOf]
    rw [List.flatMap_append, List.flatMap_singleton, ih, hlast, add_written]

/-- An iteration has written nothing, or what its operation writes. -/
theorem Partial.written {t : Tid} {es : List (Event (E := Eff D) Eff.Res)} (c : Channel)
    (h : Partial t (blockOf es)) :
    es.flatMap (written c) = [] ∨
      es.flatMap (DriveWire.written c) = ((blockOf es).plan t).toList.flatMap (inboxIn c) := by
  rw [blockOf_written]
  obtain hdid | ⟨o, r, hplan, hdid⟩ := h
  · rw [hdid]
    exact .inl rfl
  · rw [hdid, hplan]
    exact .inr rfl

theorem plan_frame {g : Nat} (c : Channel) (b : Block D) :
    (b.plan (.guest g)).toList.flatMap (inboxIn c) = frameBytes c b.received := by
  unfold Block.plan
  cases b.received with
  | nil => rfl
  | cons opcode payload => exact inboxIn_commandOp c _ payload

theorem Complete.written {g : Nat} {es : List (Event (E := Eff D) Eff.Res)} (c : Channel)
    (h : Complete (.guest g) (blockOf es)) :
    es.flatMap (written c) = frameBytes c (blockOf es).received := by
  rw [blockOf_written, ← plan_frame (g := g), ← h.did, List.flatMap_map]

theorem drainOp_written (c : Channel) (channel : UInt8) :
    (drainOp channel : Option (Op D)).toList.flatMap (inboxIn c) = [] := by
  unfold drainOp
  split <;> rfl

theorem sendOp_written (c : Channel) (channel : UInt8) (bytes : List UInt8) :
    (sendOp channel bytes : Option (Op D)).toList.flatMap (inboxIn c) = [] := by
  unfold sendOp
  split <;> rfl

/-- Only guests write. -/
theorem plan_written {t : Tid} (ht : ∀ g, t ≠ .guest g) (c : Channel) (b : Block D) :
    (b.plan t).toList.flatMap (inboxIn c) = [] := by
  cases t with
  | guest g => exact absurd rfl (ht g)
  | attachOut n channel => exact drainOp_written c channel
  | attachIn n channel =>
    simp only [Block.plan]
    split
    · rfl
    · exact sendOp_written c channel _
  | api n =>
    simp only [Block.plan]
    split
    · exact drainOp_written c _
    · exact sendOp_written c _ _
    · rfl
  | _ => rfl

/-! ## Section 3: Runs -/

/-- What is written to channel `c` comes from the frames of the guests, each
    of which is written as a whole, in the order in which its session has
    received them. -/
structure FromFrames [VDisk D] [UnicodeTables] (c : Channel) (tr : List (SysLabel D)) : Prop where
  guests : ∀ l ∈ tr, traffic (fun o _ => inboxIn c o) [l] ≠ [] → ∃ g, l.1 = .guest g
  frames : ∀ g, ∃ rounds cur part, FifoRounds (.guest g) (eventsOf (.guest g) tr) rounds cur ∧
    (part = [] ∨ part = frameBytes c (blockOf cur).received) ∧
    traffic (fun o _ => inboxIn c o) (tr.filter fun l => l.1 = .guest g) =
      (rounds.flatMap fun es => frameBytes c (blockOf es).received) ++ part

theorem traffic_written (c : Channel) (t : Tid) (tr : List (SysLabel D)) :
    traffic (fun o _ => inboxIn c o) (tr.filter fun l => l.1 = t) =
      (eventsOf t tr).flatMap (written c) := by
  induction tr with
  | nil => rfl
  | cons l tr ih =>
    obtain ⟨u, e, r⟩ := l
    have hone : traffic (fun o _ => inboxIn c o) [(u, ⟨e, r⟩)] = written (D := D) c ⟨e, r⟩ := by
      cases e <;> simp [traffic, written]
    by_cases hu : u = t
    · subst hu
      rw [List.filter_cons_of_pos (by simp), ← List.singleton_append, traffic_append, ih, hone]
      simp [eventsOf]
    · rw [List.filter_cons_of_neg (by simpa using hu), ih]
      simp [eventsOf, hu]

/-- **What guests write** to a channel is what their frames carry for it. -/
theorem run_fromFrames [VDisk D] [UnicodeTables] {env : Env D F N}
    {ok : SysConfig D F N → SysLabel D → Prop} {w : World D F N} {cfg : SysConfig D F N}
    {tr : List (SysLabel D)} (hrun : Run (system env) ok (Config.initial w) tr cfg) (c : Channel) :
    FromFrames c tr := by
  obtain ⟨hfifos, -, -⟩ := vserial_fifo env w hrun
  refine ⟨?_, fun g => ?_⟩
  · rintro ⟨t, ev⟩ hl hne
    by_contra hnone
    have hother : ∀ g, t ≠ .guest g := fun g hg => hnone ⟨g, hg⟩
    obtain ⟨rounds, cur, hrounds⟩ := hfifos.tasks t
    -- no iteration of such a task writes
    have hpart : ∀ es : List (Event (E := Eff D) Eff.Res), Partial t (blockOf es) →
        es.flatMap (written c) = [] := by
      intro es hes
      obtain h | h := hes.written c
      · exact h
      · exact h.trans (plan_written hother c _)
    have hall : (eventsOf t tr).flatMap (written c) = [] := by
      rw [hrounds.events, List.flatMap_append, hpart cur hrounds.underway.1, List.append_nil,
        List.flatMap_eq_nil_iff]
      intro ev hev
      obtain ⟨es, hes, hmem⟩ := List.mem_flatten.mp hev
      exact List.flatMap_eq_nil_iff.mp
        (hpart es (hrounds.finished es hes).complete.partially) ev hmem
    have hmem : ev ∈ eventsOf t tr := mem_eventsOf.mpr hl
    have hnil := List.flatMap_eq_nil_iff.mp hall ev hmem
    obtain ⟨e, r⟩ := ev
    cases e <;> exact hne ((List.append_nil _).trans hnil)
  · obtain ⟨rounds, cur, hrounds⟩ := hfifos.tasks (.guest g)
    refine ⟨rounds, cur, cur.flatMap (written c), hrounds, ?_, ?_⟩
    · rw [← plan_frame (g := g)]
      exact hrounds.underway.1.written c
    · rw [traffic_written, hrounds.events, List.flatMap_append]
      congr 1
      rw [List.flatten_eq_flatMap, List.flatMap_assoc]
      exact List.flatMap_congr fun es hes => (hrounds.finished es hes).complete.written c

end DriveWire
