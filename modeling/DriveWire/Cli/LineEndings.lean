import DriveWire.Stream.Machine
import DriveWire.Cli.Attach
import Mathlib.Data.List.Count

/-! # Normalised Line Endings

    A byte string is split into line terminators (CR LF, a lone CR or a lone
    LF, greedily from the left) and other bytes.  However it is cut into
    chunks, `normalize_line_endings` replaces each terminator by CR LF and
    changes nothing else. -/

namespace DriveWire.Cli

open Streams

/-! ## Section 1: Lines -/

inductive Terminator where
  | crLf : Terminator
  | cr   : Terminator
  | lf   : Terminator
  deriving DecidableEq

def Terminator.bytes : Terminator → List UInt8
  | .crLf => [CR, LF]
  | .cr   => [CR]
  | .lf   => [LF]

/-- A terminator, or a byte that belongs to none. -/
inductive Piece where
  | newline : Terminator → Piece
  | text    : (b : UInt8) → b ≠ CR → b ≠ LF → Piece
  deriving DecidableEq

namespace Piece

def bytes : Piece → List UInt8
  | newline t  => t.bytes
  | text b _ _ => [b]

/-- A terminator becomes CR LF. -/
def toCrLf : Piece → Piece
  | newline _   => newline .crLf
  | text b h h' => text b h h'

def isNewline : Piece → Bool
  | newline _  => true
  | text _ _ _ => false

end Piece

theorem lf_ne_cr : LF ≠ CR := by
  decide

/-- The bytes of some pieces. -/
def joined (ps : List Piece) : List UInt8 := ps.flatMap Piece.bytes

/-- The pieces of a byte string, greedily from the left. -/
def pieces : List UInt8 → List Piece
  | [] => []
  | b :: bs =>
    if hcr : b = CR then
      match bs with
      | [] => [.newline .cr]
      | c :: cs =>
        if c = LF then .newline .crLf :: pieces cs
        else .newline .cr :: pieces (c :: cs)
    else if hlf : b = LF then .newline .lf :: pieces bs
    else .text b hcr hlf :: pieces bs

/-- The byte string with each terminator replaced by CR LF. -/
def withCrLf (bs : List UInt8) : List UInt8 := joined ((pieces bs).map Piece.toCrLf)

@[simp] theorem joined_nil : joined [] = [] := rfl

@[simp] theorem joined_cons (p : Piece) (ps : List Piece) :
    joined (p :: ps) = p.bytes ++ joined ps := rfl

@[simp] theorem pieces_nil : pieces [] = [] := by
  rw [pieces]

@[simp] theorem pieces_cr : pieces [CR] = [.newline .cr] := by
  rw [pieces, dif_pos rfl]

@[simp] theorem pieces_crLf (bs : List UInt8) :
    pieces (CR :: LF :: bs) = .newline .crLf :: pieces bs := by
  rw [pieces, dif_pos rfl, if_pos rfl]

theorem pieces_cr_cons {c : UInt8} (hc : c ≠ LF) (cs : List UInt8) :
    pieces (CR :: c :: cs) = .newline .cr :: pieces (c :: cs) := by
  rw [pieces, dif_pos rfl, if_neg hc]

@[simp] theorem pieces_lf (bs : List UInt8) : pieces (LF :: bs) = .newline .lf :: pieces bs := by
  rw [pieces.eq_def]
  exact (dif_neg lf_ne_cr).trans (dif_pos rfl)

theorem pieces_text {b : UInt8} (hcr : b ≠ CR) (hlf : b ≠ LF) (bs : List UInt8) :
    pieces (b :: bs) = .text b hcr hlf :: pieces bs := by
  rw [pieces.eq_def]
  exact (dif_neg hcr).trans (dif_neg hlf)

/-- Splitting loses nothing. -/
theorem joined_pieces (bs : List UInt8) : joined (pieces bs) = bs := by
  induction bs using pieces.induct with
  | case1 => simp
  | case2 => simp [Piece.bytes, Terminator.bytes]
  | case3 cs ih => simp [Piece.bytes, Terminator.bytes, ih]
  | case4 c cs hc ih =>
    rw [pieces_cr_cons hc, joined_cons, ih]
    rfl
  | case5 bs hcr ih => simp [Piece.bytes, Terminator.bytes, ih]
  | case6 b bs hcr hlf ih =>
    rw [pieces_text hcr hlf, joined_cons, ih]
    rfl

/-! ## Section 2: What CR LF lines look like -/

/-- Pieces with CR LF as their only terminator are the pieces of their bytes. -/
theorem pieces_joined (ps : List Piece) :
    pieces (joined (ps.map Piece.toCrLf)) = ps.map Piece.toCrLf := by
  induction ps with
  | nil => simp
  | cons p ps ih =>
    rw [List.map_cons, joined_cons]
    cases p with
    | newline t =>
      show pieces (CR :: LF :: joined (ps.map Piece.toCrLf)) = _
      rw [pieces_crLf, ih]
      rfl
    | text b hcr hlf =>
      show pieces (b :: joined (ps.map Piece.toCrLf)) = _
      rw [pieces_text hcr hlf, ih]
      rfl

theorem toCrLf_toCrLf (p : Piece) : p.toCrLf.toCrLf = p.toCrLf := by
  cases p <;> rfl

theorem pieces_withCrLf (bs : List UInt8) :
    pieces (withCrLf bs) = (pieces bs).map Piece.toCrLf :=
  pieces_joined (pieces bs)

/-- Replacing the terminators again changes nothing. -/
theorem withCrLf_withCrLf (bs : List UInt8) : withCrLf (withCrLf bs) = withCrLf bs := by
  have htwice : Piece.toCrLf ∘ Piece.toCrLf = Piece.toCrLf := funext toCrLf_toCrLf
  rw [withCrLf, pieces_withCrLf, List.map_map, htwice, withCrLf]

/-- Every CR is followed by LF. -/
theorem cr_then_lf (ps : List Piece) (i : Nat)
    (h : (joined (ps.map Piece.toCrLf))[i]? = some CR) :
    (joined (ps.map Piece.toCrLf))[i + 1]? = some LF := by
  induction ps generalizing i with
  | nil => cases h
  | cons p ps ih =>
    cases p with
    | newline t =>
      rcases i with _ | _ | i
      · rfl
      · exact absurd (Option.some_inj.mp h) lf_ne_cr
      · exact ih i h
    | text b hcr hlf =>
      rcases i with _ | i
      · exact absurd (Option.some_inj.mp h) hcr
      · exact ih i h

/-- Every LF is preceded by CR. -/
theorem lf_after_cr (ps : List Piece) (i : Nat)
    (h : (joined (ps.map Piece.toCrLf))[i]? = some LF) :
    ∃ j, i = j + 1 ∧ (joined (ps.map Piece.toCrLf))[j]? = some CR := by
  induction ps generalizing i with
  | nil => cases h
  | cons p ps ih =>
    cases p with
    | newline t =>
      rcases i with _ | _ | i
      · exact absurd (Option.some_inj.mp h).symm lf_ne_cr
      · exact ⟨0, rfl, rfl⟩
      · obtain ⟨j, rfl, hj⟩ := ih i h
        exact ⟨j + 2, rfl, hj⟩
    | text b hcr hlf =>
      rcases i with _ | i
      · exact absurd (Option.some_inj.mp h) hlf
      · obtain ⟨j, rfl, hj⟩ := ih i h
        exact ⟨j + 1, rfl, hj⟩

/-- There is an LF for each terminator. -/
theorem count_lf (ps : List Piece) :
    (joined (ps.map Piece.toCrLf)).count LF = ps.countP Piece.isNewline := by
  induction ps with
  | nil => rfl
  | cons p ps ih =>
    rw [List.map_cons, joined_cons, List.count_append, ih]
    cases p with
    | newline t =>
      have hone : (Piece.newline t).toCrLf.bytes.count LF = 1 := by
        show [CR, LF].count LF = 1
        decide
      rw [hone, List.countP_cons_of_pos rfl, Nat.add_comm]
    | text b hcr hlf =>
      have hnone : (Piece.text b hcr hlf).toCrLf.bytes.count LF = 0 :=
        List.count_eq_zero.mpr fun hmem => hlf (List.mem_singleton.mp hmem).symm
      rw [hnone, List.countP_cons_of_neg Bool.false_ne_true, Nat.zero_add]

/-! ## Section 3: The code as a machine -/

/-- What is appended to the output for one byte, and `had_cr` after it. -/
def normalizer : Machine Bool UInt8 UInt8 where
  step := fun hadCr b =>
    let (out, hadCr) := normalizeByte ([], hadCr) b
    ⟨hadCr, out, false⟩

theorem normalizeByte_eq (out : List UInt8) (hadCr : Bool) (b : UInt8) :
    normalizeByte (out, hadCr) b =
      (out ++ (normalizer.step hadCr b).output, (normalizer.step hadCr b).state) := by
  by_cases hcr : b = CR
  · cases hadCr <;> simp [normalizeByte, normalizer, hcr]
  · by_cases hlf : b = LF
    · cases hadCr <;> simp [normalizeByte, normalizer, hlf, lf_ne_cr]
    · cases hadCr <;> simp [normalizeByte, normalizer, hcr, hlf]

theorem normalizer_runs (bs : List UInt8) (hadCr : Bool) :
    (normalizer.feed bs hadCr).stopped = false :=
  normalizer.feed_stopped (fun _ _ => rfl) bs hadCr

theorem foldl_normalizeByte (bs : List UInt8) (out : List UInt8) (hadCr : Bool) :
    bs.foldl normalizeByte (out, hadCr) =
      (out ++ (normalizer.feed bs hadCr).output, (normalizer.feed bs hadCr).state) := by
  induction bs generalizing out hadCr with
  | nil =>
    show (out, hadCr) = (out ++ [], hadCr)
    rw [List.append_nil]
  | cons b bs ih =>
    rw [List.foldl_cons, normalizeByte_eq, ih, Machine.feed_cons, Fed.andThen_running rfl,
      List.append_assoc]

theorem normalizeLineEndings_eq (bs : List UInt8) (hadCr : Bool) :
    normalizeLineEndings bs hadCr =
      ((normalizer.feed bs hadCr).output, (normalizer.feed bs hadCr).state) :=
  foldl_normalizeByte bs [] hadCr

/-- Chunks in order, with `had_cr` handed on from call to call. -/
def normalizeChunks : List (List UInt8) → Bool → List UInt8 × Bool
  | [], hadCr => ([], hadCr)
  | chunk :: chunks, hadCr =>
    let (out, hadCr) := normalizeLineEndings chunk hadCr
    let (outs, hadCr) := normalizeChunks chunks hadCr
    (out ++ outs, hadCr)

theorem normalizeChunks_eq (chunks : List (List UInt8)) (hadCr : Bool) :
    normalizeChunks chunks hadCr =
      ((normalizer.feed chunks.flatten hadCr).output,
        (normalizer.feed chunks.flatten hadCr).state) := by
  rw [← Machine.feedReads_eq]
  induction chunks generalizing hadCr with
  | nil => rfl
  | cons chunk chunks ih =>
    rw [Machine.feedReads, Fed.andThen_running (normalizer_runs chunk hadCr), normalizeChunks,
      normalizeLineEndings_eq]
    dsimp only
    rw [ih]

/-- All the output, followed by CR LF for a CR that is held back. -/
def normalized (chunks : List (List UInt8)) : List UInt8 :=
  let (out, hadCr) := normalizeChunks chunks false
  out ++ if hadCr then [CR, LF] else []

/-- A CR is held back until the next byte is known. -/
theorem normalizer_computes : normalizer.Computes withCrLf
    (fun hadCr => if hadCr then [CR] else []) (fun hadCr => if hadCr then [CR, LF] else []) where
  held := by
    intro hadCr
    cases hadCr with
    | true => simp [withCrLf, Piece.toCrLf, Piece.bytes, Terminator.bytes]
    | false => simp [withCrLf]
  runs := by
    intro hadCr b bs _
    -- a CR ends the line before it, an LF may belong to the CR before it
    by_cases hcr : b = CR
    · subst hcr
      cases hadCr with
      | true =>
        show withCrLf (CR :: CR :: bs) = [CR, LF] ++ withCrLf (CR :: bs)
        rw [withCrLf, pieces_cr_cons lf_ne_cr.symm]
        rfl
      | false => rfl
    · by_cases hlf : b = LF
      · subst hlf
        cases hadCr with
        | true =>
          show withCrLf (CR :: LF :: bs) = [CR, LF] ++ withCrLf bs
          rw [withCrLf, pieces_crLf]
          rfl
        | false =>
          show withCrLf (LF :: bs) = [CR, LF] ++ withCrLf bs
          rw [withCrLf, pieces_lf]
          rfl
      · -- any other byte: a CR that was held back is a line ending by itself
        have htext : withCrLf (b :: bs) = b :: withCrLf bs := by
          rw [withCrLf, pieces_text hcr hlf]
          rfl
        cases hadCr with
        | true =>
          have hstep : normalizer.step true b = ⟨false, [CR, LF, b], false⟩ := by
            simp [normalizer, normalizeByte, hcr, hlf]
          rw [hstep]
          show withCrLf (CR :: b :: bs) = CR :: LF :: b :: withCrLf bs
          rw [← htext, withCrLf, pieces_cr_cons hlf]
          rfl
        | false =>
          have hstep : normalizer.step false b = ⟨false, [b], false⟩ := by
            simp [normalizer, normalizeByte, hcr, hlf]
          rw [hstep]
          exact htext
  ends := fun _ _ _ hstop => absurd hstop Bool.false_ne_true

theorem normalized_eq (chunks : List (List UInt8)) :
    normalized chunks = withCrLf chunks.flatten := by
  have hspec := normalizer_computes.feed chunks.flatten false
  rw [normalizer_runs, if_neg Bool.false_ne_true] at hspec
  rw [normalized, normalizeChunks_eq]
  exact hspec.symm

example : normalized [[0x61, CR, CR], [CR], [LF, 0x62, CR]] =
    [0x61, CR, LF, CR, LF, CR, LF, 0x62, CR, LF] := by decide

/-! ## Section 4: The terminal -/

/-- With every write accepted, the terminal is sent what the normalisation
    has put out so far. -/
theorem sockToStdout_translated {reads : List (List UInt8)} (hreads : [] ∉ reads) (hadCr : Bool) :
    sockToStdout true (accepted reads) hadCr =
      ⟨(normalizeChunks reads hadCr).1, (normalizeChunks reads hadCr).2, .reading⟩ := by
  induction reads generalizing hadCr with
  | nil => rfl
  | cons r rs ih =>
    have hne : r ≠ [] := fun h => hreads (h ▸ List.mem_cons_self)
    have ih := ih (fun h => hreads (List.mem_cons_of_mem _ h)) (normalizeLineEndings r hadCr).2
    show sockToStdout true (⟨r, true⟩ :: accepted rs) hadCr = _
    rw [sockToStdout, if_neg hne]
    dsimp only
    rw [if_pos rfl, if_neg Bool.noConfusion, ih]
    rfl

/-- With `--raw` it is sent what was read. -/
theorem sockToStdout_raw {reads : List (List UInt8)} (hreads : [] ∉ reads) (hadCr : Bool) :
    sockToStdout false (accepted reads) hadCr = ⟨reads.flatten, hadCr, .reading⟩ := by
  induction reads with
  | nil => rfl
  | cons r rs ih =>
    have hne : r ≠ [] := fun h => hreads (h ▸ List.mem_cons_self)
    have ih := ih fun h => hreads (List.mem_cons_of_mem _ h)
    show sockToStdout false (⟨r, true⟩ :: accepted rs) hadCr = _
    rw [sockToStdout, if_neg hne]
    dsimp only
    rw [if_neg Bool.false_ne_true]
    dsimp only
    rw [if_neg Bool.noConfusion, ih]
    rfl

/-! ## Section 5: Any chunking -/

/-- **Line endings are normalised for any chunking.**  The pieces of the input
    are the whole input, and the output has CR LF for each terminator among
    them.  It does not depend on how the input is cut, its CRs and LFs come in
    pairs, one for each terminator, and normalising it again changes nothing.
    Read after read, this is what the terminal is sent, unless `--raw` is
    given. -/
theorem line_endings_normalized (chunks : List (List UInt8)) :
    joined (pieces chunks.flatten) = chunks.flatten ∧
    normalized chunks = withCrLf chunks.flatten ∧
    (∀ chunks', chunks'.flatten = chunks.flatten → normalized chunks' = normalized chunks) ∧
    (∀ i : Nat, (normalized chunks)[i]? = some CR → (normalized chunks)[i + 1]? = some LF) ∧
    (∀ i : Nat, (normalized chunks)[i]? = some LF →
      ∃ j, i = j + 1 ∧ (normalized chunks)[j]? = some CR) ∧
    (normalized chunks).count LF = (pieces chunks.flatten).countP Piece.isNewline ∧
    (∀ chunks', chunks'.flatten = normalized chunks → normalized chunks' = normalized chunks) ∧
    ([] ∉ chunks → ∀ hadCr,
      sockToStdout true (accepted chunks) hadCr =
        ⟨(normalizeChunks chunks hadCr).1, (normalizeChunks chunks hadCr).2, .reading⟩ ∧
      sockToStdout false (accepted chunks) hadCr = ⟨chunks.flatten, hadCr, .reading⟩) := by
  rw [normalized_eq]
  refine ⟨joined_pieces _, rfl, ?_, cr_then_lf _, lf_after_cr _, count_lf _, ?_, ?_⟩
  · intro chunks' hsame
    rw [normalized_eq, hsame]
  · intro chunks' hagain
    rw [normalized_eq, hagain, withCrLf_withCrLf]
  · intro hchunks hadCr
    exact ⟨sockToStdout_translated hchunks hadCr, sockToStdout_raw hchunks hadCr⟩

end DriveWire.Cli
