import DriveWire.Server.Effects

/-! # Queue Operations

    What the two partial readers of the outbox array do to it: the scan of
    SERREAD and the pops of SERREADM. -/

namespace DriveWire

/-! ## Section 1: The scan of SERREAD -/

/-- `c` is the lowest-numbered channel with a non-empty queue. -/
def Lowest (out : Channel → List UInt8) (c : Channel) : Prop :=
  out c ≠ [] ∧ ∀ c' < c, out c' = []

/-- What a scan found is the front of the lowest non-empty queue, or its
    length when it has three bytes or more. -/
def Found (out : Channel → List UInt8) : Scan → Prop
  | .empty => ∀ c, out c = []
  | .byte c b => Lowest out c ∧ (out c).length < 3 ∧ (out c).head? = some b
  | .burst c n => Lowest out c ∧ 3 ≤ (out c).length ∧ n = UInt8.ofNat (min (out c).length 255)

/-- The queues after a scan: a byte reply takes the byte, a count nothing. -/
def afterScan (out : Channel → List UInt8) : Scan → Channel → List UInt8
  | .byte c _ => Function.update out c (out c).tail
  | _ => out

theorem scanOutbox_cons_nil {c : Channel} {cs : List Channel} {out : Channel → List UInt8}
    (h : out c = []) : scanOutbox (c :: cs) out = scanOutbox cs out := by
  rw [scanOutbox, h]

theorem scanOutbox_cons {c : Channel} {cs : List Channel} {out : Channel → List UInt8} {b : UInt8}
    {tail : List UInt8} (h : out c = b :: tail) :
    scanOutbox (c :: cs) out =
      if (out c).length < 3 then (.byte c b, Function.update out c tail)
      else (.burst c (UInt8.ofNat (min (out c).length 255)), out) := by
  rw [scanOutbox]
  split
  · rename_i hnil
    rw [h] at hnil
    cases hnil
  · rename_i b' tail' hcons
    rw [h] at hcons
    cases hcons
    rfl

/-- The scan stops at the first non-empty queue of its list. -/
theorem scanOutbox_spec (cs : List Channel) (out : Channel → List UInt8) :
    (∀ c ∈ cs, out c = []) ∧ scanOutbox cs out = (.empty, out) ∨
    ∃ pre c post b tail, cs = pre ++ c :: post ∧ (∀ c' ∈ pre, out c' = []) ∧ out c = b :: tail ∧
      scanOutbox cs out =
        if (out c).length < 3 then (.byte c b, Function.update out c tail)
        else (.burst c (UInt8.ofNat (min (out c).length 255)), out) := by
  induction cs with
  | nil => exact .inl ⟨nofun, rfl⟩
  | cons c cs ih =>
    cases hc : out c with
    | cons b tail =>
      refine .inr ⟨[], c, cs, b, tail, rfl, nofun, hc, ?_⟩
      exact scanOutbox_cons hc
    | nil =>
      rw [scanOutbox_cons_nil hc]
      obtain ⟨hnil, hscan⟩ | ⟨pre, d, post, b, tail, rfl, hpre, hd, hscan⟩ := ih
      · exact .inl ⟨List.forall_mem_cons.mpr ⟨hc, hnil⟩, hscan⟩
      · exact .inr ⟨c :: pre, d, post, b, tail, rfl, List.forall_mem_cons.mpr ⟨hc, hpre⟩, hd, hscan⟩

/-- In the list of all channels, those before `c` are the smaller ones. -/
theorem mem_before_of_lt {n : Nat} {pre post : List (Fin n)} {c c' : Fin n}
    (h : List.finRange n = pre ++ c :: post) (hlt : c' < c) : c' ∈ pre := by
  have hmem : c' ∈ pre ++ c :: post := h ▸ List.mem_finRange c'
  have hsorted := List.pairwise_append.mp (h ▸ List.pairwise_lt_finRange n)
  rcases List.mem_append.mp hmem with hpre | hrest
  · exact hpre
  · rcases List.mem_cons.mp hrest with rfl | hpost
    · exact absurd hlt (lt_irrefl _)
    · have := List.rel_of_pairwise_cons hsorted.2.1 hpost
      exact absurd hlt (lt_asymm this)

/-- **The scan of SERREAD** finds what it should, and removes only the byte
    that it returns. -/
theorem scanOutbox_found (out : Channel → List UInt8) :
    Found out (scanOutbox (List.finRange vserialChannels) out).1 ∧
      (scanOutbox (List.finRange vserialChannels) out).2 =
        afterScan out (scanOutbox (List.finRange vserialChannels) out).1 := by
  obtain ⟨hnil, hscan⟩ | ⟨pre, c, post, b, tail, hcs, hpre, hc, hscan⟩ :=
    scanOutbox_spec (List.finRange vserialChannels) out
  · rw [hscan]
    exact ⟨fun c => hnil c (List.mem_finRange c), rfl⟩
  · have hlowest : Lowest out c := by
      refine ⟨by simp [hc], fun c' hlt => hpre c' (mem_before_of_lt hcs hlt)⟩
    rw [hscan]
    split
    · rename_i hlen
      exact ⟨⟨hlowest, hlen, by simp [hc]⟩, by simp [afterScan, hc]⟩
    · rename_i hlen
      exact ⟨⟨hlowest, by omega, rfl⟩, rfl⟩

/-! ## Section 2: The pops of SERREADM -/

theorem popFronts_snd (n : Nat) (q : List UInt8) : (popFronts n q).2 = q.drop n := by
  induction n with
  | zero => rfl
  | succ n ih => rw [popFronts, ih, List.tail_drop]

theorem popFronts_toList (n : Nat) (q : List UInt8) :
    (popFronts n q).1.toList =
      (q.take n).map some ++ List.replicate (n - q.length) none := by
  induction n with
  | zero => simp [popFronts]
  | succ n ih =>
    rw [popFronts, Vector.toList_push, ih, popFronts_snd, List.head?_drop]
    by_cases hn : n < q.length
    · have h₁ : n - q.length = 0 := by omega
      have h₂ : n + 1 - q.length = 0 := by omega
      rw [List.take_add_one, h₁, h₂, List.map_append, List.getElem?_eq_getElem hn]
      simp only [List.replicate_zero, List.append_nil, Option.toList_some, List.map_cons,
        List.map_nil]
    · have h₁ : n + 1 - q.length = (n - q.length) + 1 := by omega
      rw [List.take_of_length_le (by omega), List.take_of_length_le (by omega), h₁,
        List.replicate_succ', List.getElem?_eq_none (by omega), List.append_assoc]

/-- The bytes that really came out of the queue. -/
theorem popFronts_popped (n : Nat) (q : List UInt8) :
    (popFronts n q).1.toList.filterMap id = q.take n := by
  rw [popFronts_toList, List.filterMap_append]
  simp [List.filterMap_map]

/-- What SERREADM sends: the front of the queue, then zeros. -/
theorem popFronts_padded (n : Nat) (q : List UInt8) :
    (popFronts n q).1.toList.map (·.getD 0) =
      q.take n ++ List.replicate (n - q.length) 0 := by
  rw [popFronts_toList, List.map_append]
  simp

end DriveWire
