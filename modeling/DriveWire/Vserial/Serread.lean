import DriveWire.Server.Status
import DriveWire.Vserial.Queues

/-! # Decoding SERREAD

    The two reply bytes of SERREAD, read with the guest's table.  Channel
    `c` and the kind of the reply share one byte, `0x01 + c` or `0x11 + c`;
    the guest's ranges have room for fifteen channels, the server has
    sixteen. -/

namespace DriveWire

open Async Server

/-! ## Section 1: The guest's table -/

/-- What the poll loop of a guest makes of a reply. -/
inductive Reading where
  | nothing   : Reading
  | byte      : UInt8 → UInt8 → Reading
  | closing   : UInt8 → Reading
  | burst     : UInt8 → UInt8 → Reading
  | unhandled : UInt8 → Reading
  deriving DecidableEq, Repr

/-- The `match` of the guest's poll loop. -/
def decodeSerread (code second : UInt8) : Reading :=
  if code = 0x00 then .nothing
  else if 0x01 ≤ code ∧ code ≤ 0x0F then .byte (code - 0x01) second
  else if code = 0x10 then .closing second
  else if 0x11 ≤ code ∧ code ≤ 0x1F then .burst (code - 0x11) second
  else .unhandled code

/-- What the server means by a reading, given its queues. -/
inductive Means (out : Channel → List UInt8) : Reading → Prop where
  | nothing : (∀ c, out c = []) → Means out .nothing
  | byte    : ∀ c b, Lowest out c → (out c).length < 3 → (out c).head? = some b →
      Means out (.byte (UInt8.ofNat c.val) b)
  | burst   : ∀ c, Lowest out c → 3 ≤ (out c).length →
      Means out (.burst (UInt8.ofNat c.val) (UInt8.ofNat (min (out c).length 255)))

/-- The two bytes for a scan. -/
def replyCode : Scan → UInt8
  | .empty => 0x00
  | .byte c _ => 0x01 + UInt8.ofNat c.val
  | .burst c _ => 0x11 + UInt8.ofNat c.val

def replySecond : Scan → UInt8
  | .empty => 0x00
  | .byte _ b => b
  | .burst _ n => n

theorem serreadReply_eq (found : Scan) :
    serreadReply found = [replyCode found, replySecond found] := by
  cases found <;> rfl

/-! ## Section 2: Which replies the guest understands -/

/-- The last channel of the server. -/
def lastChannel : Channel := 15

/-- Only the last channel has something to send. -/
def OnlyLast (out : Channel → List UInt8) : Prop :=
  out lastChannel ≠ [] ∧ ∀ c, c ≠ lastChannel → out c = []

theorem byteCode_range : ∀ c : Channel, c ≠ lastChannel →
    0x01 + UInt8.ofNat c.val ≠ 0x00 ∧ 0x01 ≤ 0x01 + UInt8.ofNat c.val ∧
    0x01 + UInt8.ofNat c.val ≤ 0x0F ∧ 0x01 + UInt8.ofNat c.val - 0x01 = UInt8.ofNat c.val := by
  decide

theorem burstCode_range : ∀ c : Channel, c ≠ lastChannel →
    0x11 + UInt8.ofNat c.val ≠ 0x00 ∧ ¬ 0x11 + UInt8.ofNat c.val ≤ 0x0F ∧
    0x11 + UInt8.ofNat c.val ≠ 0x10 ∧ 0x11 ≤ 0x11 + UInt8.ofNat c.val ∧
    0x11 + UInt8.ofNat c.val ≤ 0x1F ∧ 0x11 + UInt8.ofNat c.val - 0x11 = UInt8.ofNat c.val := by
  decide

theorem decode_byte {c : Channel} (hc : c ≠ lastChannel) (b : UInt8) :
    decodeSerread (replyCode (.byte c b)) b = .byte (UInt8.ofNat c.val) b := by
  obtain ⟨hne, hlo, hhi, hsub⟩ := byteCode_range c hc
  rw [decodeSerread, replyCode, if_neg hne, if_pos ⟨hlo, hhi⟩, hsub]

theorem decode_burst {c : Channel} (hc : c ≠ lastChannel) (n : UInt8) :
    decodeSerread (replyCode (.burst c n)) n = .burst (UInt8.ofNat c.val) n := by
  obtain ⟨hne, hbyte, hclosing, hlo, hhi, hsub⟩ := burstCode_range c hc
  rw [decodeSerread, replyCode, if_neg hne, if_neg fun h => hbyte h.2, if_neg hclosing,
    if_pos ⟨hlo, hhi⟩, hsub]

/-- A byte of the last channel reads as a closing notice, and a count as
    nothing that the guest knows. -/
theorem decode_last (b : UInt8) :
    decodeSerread (replyCode (.byte lastChannel b)) b = .closing b ∧
      decodeSerread (replyCode (.burst lastChannel b)) b = .unhandled 0x20 :=
  ⟨rfl, rfl⟩

theorem not_onlyLast {out : Channel → List UInt8} {c : Channel} (hc : c ≠ lastChannel)
    (hne : out c ≠ []) : ¬ OnlyLast out :=
  fun h => hne (h.2 c hc)

/-- The last channel is the lowest only if it is alone. -/
theorem onlyLast_of_lowest {out : Channel → List UInt8} (h : Lowest out lastChannel) :
    OnlyLast out := by
  refine ⟨h.1, fun c hc => h.2 c ?_⟩
  have hle : c.val ≤ 15 := Nat.le_of_lt_succ c.isLt
  exact lt_of_le_of_ne hle hc

theorem found_decodes_iff {out : Channel → List UInt8} {found : Scan} (h : Found out found) :
    Means out (decodeSerread (replyCode found) (replySecond found)) ↔ ¬ OnlyLast out := by
  cases found with
  | empty => exact iff_of_true (Means.nothing h) fun hlast => hlast.1 (h lastChannel)
  | byte c b =>
    obtain ⟨hlow, hlen, hhead⟩ := h
    by_cases hc : c = lastChannel
    · subst hc
      refine iff_of_false (fun hm => ?_) (not_not.mpr (onlyLast_of_lowest hlow))
      rw [replySecond, (decode_last b).1] at hm
      cases hm
    · rw [replySecond, decode_byte hc b]
      exact iff_of_true (Means.byte c b hlow hlen hhead) (not_onlyLast hc hlow.1)
  | burst c n =>
    obtain ⟨hlow, hlen, hn⟩ := h
    by_cases hc : c = lastChannel
    · subst hc
      refine iff_of_false (fun hm => ?_) (not_not.mpr (onlyLast_of_lowest hlow))
      rw [replySecond, (decode_last n).2] at hm
      cases hm
    · rw [replySecond, decode_burst hc n, hn]
      exact iff_of_true (Means.burst c hlow hlen) (not_onlyLast hc hlow.1)

/-! ## Section 3: The handler's reply -/

namespace Solo

variable {D F : Type} {host : Host D F} {t : Tid}

/-- The SERREAD command. -/
def serread : Command := ⟨0x43, [], rfl⟩

theorem exec_serread (host : Host D F) (t : Tid) (s : State D F) :
    exec host t serread s = some (serreadReply (Op.outboxScan.run s.server).1,
      { s with server := (Op.outboxScan.run s.server).2 }) := by
  refine exec_handler (x := handleSerread) rfl ?_
  rw [handleSerread_eq]
  simp [serread, answer, State.world, World.acquire, World.release, Wire.answer]

/-- **Decoding SERREAD.** From any state of the outbox, the guest reads the
    reply as the server meant it, unless channel 15 alone has bytes. -/
theorem serread_decodes_iff (host : Host D F) (t : Tid) (s : State D F) :
    ∃ code second s', exec host t serread s = some ([code, second], s') ∧
      (Means s.server.vserialOutbox (decodeSerread code second) ↔
        ¬ OnlyLast s.server.vserialOutbox) := by
  have hexec := exec_serread host t s
  rw [serreadReply_eq] at hexec
  exact ⟨_, _, _, hexec, found_decodes_iff (scanOutbox_found s.server.vserialOutbox).1⟩

/-- The outbox after `send_to_vserial(15, [0x41])`. -/
def lastChannelReady (f : F) : State D F where
  server := (Op.outboxExtend lastChannel [0x41]).run (Server.new D) |>.2
  notify := fun _ => .new
  sys    := f

/-- A byte for channel 15 is read as a closing notice. -/
theorem serread_not_decoded : ¬ ∀ (host : Host Unit Unit) (t : Tid) (s s' : State Unit Unit)
    (code second : UInt8), exec host t serread s = some ([code, second], s') →
    Means s.server.vserialOutbox (decodeSerread code second) := by
  intro h
  have hexec := exec_serread failingHost (.guest 0) (lastChannelReady ())
  have hmeans := h failingHost (.guest 0) (lastChannelReady ()) _ 0x10 0x41 hexec
  cases hmeans

end Solo

end DriveWire
