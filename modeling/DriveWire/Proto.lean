import Mathlib

/-! # Wire-Protocol Primitives

    Opcode decoding, the 24-bit LSN, the additive checksum and the error
    codes of `drivewire-proto`.  No I/O. -/

namespace DriveWire

/-! ## Section 1: Opcodes -/

inductive Opcode where
  -- DW3
  | nop | time | printFlush | getStat | init | print | read | setStat | term
  | write | reread | rewrite | readEx | rereadEx | reset2 | reset1
  -- DW4
  | wirebugMode | serRead | serGetStat | serInit | dwInit | serReadM
  | serWriteM | serWrite | serSetStat | serTerm | reset3
  deriving DecidableEq, Repr

/-- `Opcode::try_from`: an unlisted byte is handed back as the error. -/
def Opcode.tryFrom (b : UInt8) : Except UInt8 Opcode :=
  match b with
  | 0x00 => .ok .nop
  | 0x23 => .ok .time
  | 0x42 => .ok .wirebugMode
  | 0x43 => .ok .serRead
  | 0x44 => .ok .serGetStat
  | 0x45 => .ok .serInit
  | 0x46 => .ok .printFlush
  | 0x47 => .ok .getStat
  | 0x49 => .ok .init
  | 0x50 => .ok .print
  | 0x52 => .ok .read
  | 0x53 => .ok .setStat
  | 0x54 => .ok .term
  | 0x57 => .ok .write
  | 0x5A => .ok .dwInit
  | 0x63 => .ok .serReadM
  | 0x64 => .ok .serWriteM
  | 0x72 => .ok .reread
  | 0x77 => .ok .rewrite
  | 0xC3 => .ok .serWrite
  | 0xC4 => .ok .serSetStat
  | 0xC5 => .ok .serTerm
  | 0xD2 => .ok .readEx
  | 0xF2 => .ok .rereadEx
  | 0xF8 => .ok .reset3
  | 0xFE => .ok .reset2
  | 0xFF => .ok .reset1
  | other => .error other

/-- One decoded opcode byte.  `fastWrite` collapses the range
    `0x80..=0x8F` into a single variant. -/
inductive Decoded where
  | op        : Opcode → Decoded
  | fastWrite : UInt8 → Decoded
  | unknown   : UInt8 → Decoded
  deriving DecidableEq, Repr

/-- `Decoded::from_byte` -/
def Decoded.fromByte (b : UInt8) : Decoded :=
  if 0x80 ≤ b ∧ b ≤ 0x8F then .fastWrite (b - 0x80)
  else match Opcode.tryFrom b with
    | .ok o => .op o
    | .error _ => .unknown b

/-! ## Section 2: Fields of bytes -/

/-- The first byte of a field. -/
abbrev byte0 {n : Nat} (v : Vector UInt8 (n + 1)) : UInt8 := v[0]

/-- The second byte of a field. -/
abbrev byte1 {n : Nat} (v : Vector UInt8 (n + 2)) : UInt8 := v[1]

/-- The first `n` bytes of a list that has them. -/
def takeVector (n : Nat) (bs : List UInt8) (h : n ≤ bs.length) : Vector UInt8 n :=
  ⟨(bs.take n).toArray, by simp [h]⟩

@[simp] theorem takeVector_toList (n : Nat) (bs : List UInt8) (h : n ≤ bs.length) :
    (takeVector n bs h).toList = bs.take n := rfl

theorem takeVector_get (n : Nat) (bs : List UInt8) (h : n ≤ bs.length) (i : Nat) (hi : i < n) :
    (takeVector n bs h)[i] = bs.getD i 0 := by
  have hbs : i < bs.length := by omega
  simp [takeVector, hbs]

theorem byte0_takeVector (n : Nat) (bs : List UInt8) (h : n + 1 ≤ bs.length) :
    byte0 (takeVector (n + 1) bs h) = bs.getD 0 0 :=
  takeVector_get _ bs h 0 (by omega)

theorem byte1_takeVector (n : Nat) (bs : List UInt8) (h : n + 2 ≤ bs.length) :
    byte1 (takeVector (n + 2) bs h) = bs.getD 1 0 :=
  takeVector_get _ bs h 1 (by omega)

theorem toList_one (v : Vector UInt8 1) : v.toList = [byte0 v] := by
  apply List.ext_getElem
  · simp
  · intro i h₁ h₂
    match i, h₂ with
    | 0, _ => simp

theorem toList_two (v : Vector UInt8 2) : v.toList = [byte0 v, byte1 v] := by
  apply List.ext_getElem
  · simp
  · intro i h₁ h₂
    match i, h₂ with
    | 0, _ => simp
    | 1, _ => simp

/-- `u16::from_be_bytes` -/
def u16FromBe (b : Vector UInt8 2) : UInt16 :=
  UInt16.ofNat (b[0].toNat * 256 + b[1].toNat)

/-- `u16::to_be_bytes` -/
def u16ToBe (x : UInt16) : Vector UInt8 2 :=
  #v[UInt8.ofNat (x.toNat / 256), UInt8.ofNat x.toNat]

theorem u16FromBe_u16ToBe (x : UInt16) : u16FromBe (u16ToBe x) = x := by
  apply UInt16.toNat_inj.mp
  have hx := x.toNat_lt
  simp [u16FromBe, u16ToBe]
  omega

theorem u16FromBe_toNat (b : Vector UInt8 2) :
    (u16FromBe b).toNat = (byte0 b).toNat * 256 + (byte1 b).toNat := by
  have h0 := b[0].toNat_lt
  have h1 := b[1].toNat_lt
  simp only [u16FromBe, UInt16.toNat_ofNat', byte0, byte1]
  omega

theorem u16FromBe_injective : Function.Injective u16FromBe := by
  intro x y h
  have hx0 := (byte0 x).toNat_lt
  have hx1 := (byte1 x).toNat_lt
  have hy0 := (byte0 y).toNat_lt
  have hy1 := (byte1 y).toNat_lt
  have hnat := congrArg UInt16.toNat h
  rw [u16FromBe_toNat, u16FromBe_toNat] at hnat
  apply Vector.toList_inj.mp
  rw [toList_two, toList_two]
  have h0 : byte0 x = byte0 y := UInt8.toNat_inj.mp (by omega)
  have h1 : byte1 x = byte1 y := UInt8.toNat_inj.mp (by omega)
  rw [h0, h1]

/-- 24-bit logical sector number, held in a `u32`. -/
structure Lsn where
  val : UInt32
  deriving DecidableEq, Repr

/-- `Lsn::from_be3` -/
def Lsn.fromBe3 (b : Vector UInt8 3) : Lsn :=
  ⟨UInt32.ofNat (b[0].toNat * 65536 + b[1].toNat * 256 + b[2].toNat)⟩

/-- `Lsn::to_be3` -/
def Lsn.toBe3 (l : Lsn) : Vector UInt8 3 :=
  #v[UInt8.ofNat (l.val.toNat / 65536), UInt8.ofNat (l.val.toNat / 256), UInt8.ofNat l.val.toNat]

theorem Lsn.fromBe3_toNat (b : Vector UInt8 3) :
    (Lsn.fromBe3 b).val.toNat = b[0].toNat * 65536 + b[1].toNat * 256 + b[2].toNat := by
  have h0 := b[0].toNat_lt
  have h1 := b[1].toNat_lt
  have h2 := b[2].toNat_lt
  simp [Lsn.fromBe3]
  omega

/-- Every LSN a guest can name has 24 bits. -/
theorem Lsn.fromBe3_lt (b : Vector UInt8 3) : (Lsn.fromBe3 b).val.toNat < 2 ^ 24 := by
  have h0 := b[0].toNat_lt
  have h1 := b[1].toNat_lt
  have h2 := b[2].toNat_lt
  rw [Lsn.fromBe3_toNat]
  omega

theorem Lsn.fromBe3_toBe3 {l : Lsn} (h : l.val.toNat < 2 ^ 24) : Lsn.fromBe3 l.toBe3 = l := by
  cases l with
  | mk v =>
    have hv : (Lsn.fromBe3 (Lsn.toBe3 ⟨v⟩)).val = v := by
      apply UInt32.toNat_inj.mp
      rw [Lsn.fromBe3_toNat]
      simp [Lsn.toBe3] at h ⊢
      omega
    exact congrArg Lsn.mk hv

/-! ## Section 3: Checksum and error codes -/

/-- Sum of bytes, each promoted to `u16`, with wrapping addition. -/
def checksum16 (data : List UInt8) : UInt16 :=
  data.foldl (fun acc b => acc + b.toUInt16) 0

example : checksum16 [1, 2, 3] = 6 := by decide

/-- Single-byte error responses. -/
inductive DwError where
  | crc | read | write | notReady
  deriving DecidableEq, Repr

/-- The discriminants of `DwError`. -/
def DwError.code : DwError → UInt8
  | .crc => 0xF3
  | .read => 0xF4
  | .write => 0xF5
  | .notReady => 0xF6

theorem DwError.code_ne_zero (e : DwError) : e.code ≠ 0 := by
  cases e <;> decide

end DriveWire
