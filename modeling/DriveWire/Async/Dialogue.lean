import Mathlib

/-! # Dialogues on a Byte Stream

    A dialogue is one side's part in a conversation over a stream without
    framing: how many items it reads and how many it writes next, as a
    function of nothing but the items it has read so far.  A session repeats
    one dialogue.  Two sessions of the same dialogue on the same stream make
    the same turns, as far as both get. -/

namespace Async

/-- What remains of a dialogue over items of type `β`. -/
inductive Dialogue (β : Type) where
  | done : Dialogue β
  | get  : Nat → (List β → Dialogue β) → Dialogue β
  | put  : Nat → Dialogue β → Dialogue β

/-- One turn of a session: items read, a number of items written, or the
    beginning of another round. -/
inductive Turn (β : Type) where
  | got  : List β → Turn β
  | put  : Nat → Turn β
  | next : Turn β

namespace Dialogue

variable {β : Type}

/-- Nothing is read any more. -/
def GetFree : Dialogue β → Prop
  | done => True
  | get _ _ => False
  | put _ d => d.GetFree

/-- What a dialogue leaves of an input that holds all it reads. -/
def feed : Dialogue β → List β → Option (List β)
  | done, input => some input
  | get n k, input => if n ≤ input.length then (k (input.take n)).feed (input.drop n) else none
  | put _ d, input => d.feed input

@[simp] theorem feed_done (input : List β) : (done : Dialogue β).feed input = some input := rfl

theorem feed_get (n : Nat) (k : List β → Dialogue β) (input : List β) :
    (get n k).feed input =
      if n ≤ input.length then (k (input.take n)).feed (input.drop n) else none := rfl

@[simp] theorem feed_put (n : Nat) (d : Dialogue β) (input : List β) :
    (put n d).feed input = d.feed input := rfl

/-- A dialogue that reads nothing does not starve. -/
theorem GetFree.feed {d : Dialogue β} (h : d.GetFree) (input : List β) :
    d.feed input = some input := by
  induction d with
  | done => rfl
  | get n k => exact h.elim
  | put n d ih => exact ih h

/-- What is read comes first, and what is left is not looked at. -/
theorem feed_eq_some {d : Dialogue β} {input rest : List β} (h : d.feed input = some rest) :
    ∃ used, input = used ++ rest ∧ ∀ rest', d.feed (used ++ rest') = some rest' := by
  induction d generalizing input with
  | done =>
    cases (h : some input = some rest)
    exact ⟨[], rfl, fun _ => rfl⟩
  | get n k ih =>
    rw [feed_get] at h
    split at h
    · rename_i hn
      obtain ⟨used, hused, hfeed⟩ := ih _ h
      have hlen : (input.take n).length = n := List.length_take_of_le hn
      refine ⟨input.take n ++ used, ?_, fun rest' => ?_⟩
      · rw [List.append_assoc, ← hused, List.take_append_drop]
      · rw [feed_get, if_pos (by simp [hn]), List.append_assoc, List.take_left' hlen,
          List.drop_left' hlen]
        exact hfeed rest'
    · cases h
  | put n d ih => exact ih h

theorem feed_append {d : Dialogue β} {input : List β} (h : d.feed input = some [])
    (rest : List β) : d.feed (input ++ rest) = some rest := by
  obtain ⟨used, hused, hfeed⟩ := feed_eq_some h
  rw [hused, List.append_nil]
  exact hfeed rest

/-! ## Section 1: The turns of a session -/

/-- `Path top d ts d'`: the turns `ts` take a session of the dialogue `top`
    from `d` to `d'`. -/
inductive Path (top : Dialogue β) : Dialogue β → List (Turn β) → Dialogue β → Prop where
  | refl : ∀ d, Path top d [] d
  | got  : ∀ {n k bs ts d'}, bs.length = n → Path top (k bs) ts d' →
      Path top (get n k) (.got bs :: ts) d'
  | put  : ∀ {n d ts d'}, Path top d ts d' → Path top (put n d) (.put n :: ts) d'
  | next : ∀ {ts d'}, Path top top ts d' → Path top done (.next :: ts) d'

/-- The items that were read. -/
def input : List (Turn β) → List β
  | [] => []
  | .got bs :: ts => bs ++ input ts
  | _ :: ts => input ts

@[simp] theorem input_append (ts ts' : List (Turn β)) :
    input (ts ++ ts') = input ts ++ input ts' := by
  induction ts with
  | nil => rfl
  | cons t ts ih => cases t <;> simp [input, ih]

/-- How many items were written when exactly `p` had been read, if `pos` had
    been read before. -/
def sentAt (p : Nat) : Nat → List (Turn β) → Nat
  | _, [] => 0
  | pos, .got bs :: ts => sentAt p (pos + bs.length) ts
  | pos, .put n :: ts => (if pos = p then n else 0) + sentAt p pos ts
  | pos, .next :: ts => sentAt p pos ts

variable {top d d' d₁ d₂ : Dialogue β} {ts ts₁ ts₂ : List (Turn β)}

theorem Path.append (h₁ : Path top d ts₁ d₁) (h₂ : Path top d₁ ts₂ d₂) :
    Path top d (ts₁ ++ ts₂) d₂ := by
  induction h₁ with
  | refl => exact h₂
  | got hlen _ ih => exact .got hlen (ih h₂)
  | put _ ih => exact .put (ih h₂)
  | next _ ih => exact .next (ih h₂)

/-- The turns of one round on an input that holds all it reads. -/
def turns : Dialogue β → List β → List (Turn β)
  | done, _ => []
  | get n k, input => .got (input.take n) :: (k (input.take n)).turns (input.drop n)
  | put n d, input => .put n :: d.turns input

/-- One complete round is determined by what it has read. -/
theorem Path.complete (h : Path top d ts d') (hdone : d' = done) (hround : .next ∉ ts) :
    d.feed (input ts) = some [] ∧ ts = d.turns (input ts) := by
  induction h with
  | refl d =>
    subst hdone
    exact ⟨rfl, rfl⟩
  | @got n k bs ts d' hlen _ ih =>
    rw [List.mem_cons, not_or] at hround
    obtain ⟨hfeed, hts⟩ := ih hdone hround.2
    constructor
    · rw [input, feed_get, if_pos (by simp [hlen]), List.take_left' hlen, List.drop_left' hlen]
      exact hfeed
    · rw [input, turns, List.take_left' hlen, List.drop_left' hlen, ← hts]
  | @put n d ts d' _ ih =>
    rw [List.mem_cons, not_or] at hround
    obtain ⟨hfeed, hts⟩ := ih hdone hround.2
    have hcons : Turn.put n :: ts = .put n :: d.turns (input ts) := congrArg _ hts
    exact ⟨hfeed, hcons⟩
  | next _ _ => exact absurd List.mem_cons_self hround

/-- What is left of a round reads what is left of its input. -/
theorem Path.feed (h : Path top d ts d') (hround : .next ∉ ts) (rest : List β) :
    d.feed (input ts ++ rest) = d'.feed rest := by
  induction h with
  | refl => rfl
  | @got n k bs ts d' hlen _ ih =>
    rw [List.mem_cons, not_or] at hround
    rw [input, List.append_assoc, feed_get, if_pos (by simp [hlen]), List.take_left' hlen,
      List.drop_left' hlen]
    exact ih hround.2
  | put _ ih =>
    rw [List.mem_cons, not_or] at hround
    exact ih hround.2
  | next _ _ => exact absurd List.mem_cons_self hround

/-- Complete rounds, one after the other. -/
theorem Path.rounds {rounds : List (List (Turn β))} (hrounds : ∀ ts ∈ rounds, Path top top ts done)
    (h : Path top top ts d) :
    Path top top (rounds.flatMap (fun ts => ts ++ [.next]) ++ ts) d := by
  induction rounds with
  | nil => exact h
  | cons r rounds ih =>
    have hrest := ih fun ts hts => hrounds ts (List.mem_cons_of_mem r hts)
    have hfirst := (hrounds r List.mem_cons_self).append (.next hrest)
    simpa using hfirst

/-- **Dialogues are deterministic.** Two sessions that have read parts of one
    stream have made the same turns, as far as both got. -/
theorem Path.comparable (h₁ : Path top d ts₁ d₁) (h₂ : Path top d ts₂ d₂) {stream : List β}
    (hin₁ : input ts₁ <+: stream) (hin₂ : input ts₂ <+: stream) :
    ts₁ <+: ts₂ ∨ ts₂ <+: ts₁ := by
  induction h₁ generalizing ts₂ stream with
  | refl => exact .inl List.nil_prefix
  | @got n k bs ts₁ d₁ hlen _ ih =>
    cases h₂ with
    | refl => exact .inr List.nil_prefix
    | @got _ _ bs' ts₂ _ hlen' h₂ =>
      -- both have read the first `n` items of the stream
      obtain ⟨rest, rfl⟩ := hin₁
      have heq : bs' = bs := by
        have hbs := (List.prefix_append bs' (input ts₂)).trans hin₂
        rw [input, List.append_assoc] at hbs
        have hle := List.prefix_of_prefix_length_le hbs (List.prefix_append bs _) (by omega)
        exact hle.eq_of_length (by omega)
      subst heq
      rw [input, input, List.append_assoc, List.prefix_append_right_inj] at hin₂
      rcases ih h₂ (List.prefix_append _ rest) hin₂ with h | h
      · exact .inl (List.cons_prefix_cons.mpr ⟨rfl, h⟩)
      · exact .inr (List.cons_prefix_cons.mpr ⟨rfl, h⟩)
  | put _ ih =>
    cases h₂ with
    | refl => exact .inr List.nil_prefix
    | put h₂ =>
      rcases ih h₂ hin₁ hin₂ with h | h
      · exact .inl (List.cons_prefix_cons.mpr ⟨rfl, h⟩)
      · exact .inr (List.cons_prefix_cons.mpr ⟨rfl, h⟩)
  | next _ ih =>
    cases h₂ with
    | refl => exact .inr List.nil_prefix
    | next h₂ =>
      rcases ih h₂ hin₁ hin₂ with h | h
      · exact .inl (List.cons_prefix_cons.mpr ⟨rfl, h⟩)
      · exact .inr (List.cons_prefix_cons.mpr ⟨rfl, h⟩)

/-- **A session that waits for input is ahead.**  It has made every turn that
    another session makes on the items that it has read. -/
theorem Path.ahead {n : Nat} {k : List β → Dialogue β} (h₁ : Path top d ts₁ d₁)
    (hwaits : d₁ = get n k) (hn : 0 < n) (h₂ : Path top d ts₂ d₂)
    (hin : input ts₂ <+: input ts₁) : ts₂ <+: ts₁ := by
  induction h₁ generalizing ts₂ with
  | refl =>
    subst hwaits
    cases h₂ with
    | refl => exact List.nil_prefix
    | got hlen _ =>
      -- the other session has read more
      rw [input, input, List.prefix_nil, List.append_eq_nil_iff] at hin
      rw [hin.1, List.length_nil] at hlen
      omega
  | @got n' k' bs ts₁ d₁ hlen _ ih =>
    cases h₂ with
    | refl => exact List.nil_prefix
    | @got _ _ bs' ts₂ _ hlen' h₂ =>
      have heq : bs' = bs := by
        have hbs := (List.prefix_append bs' (input ts₂)).trans hin
        have hle := List.prefix_of_prefix_length_le hbs (List.prefix_append bs _) (by omega)
        exact hle.eq_of_length (by omega)
      subst heq
      rw [input, input, List.prefix_append_right_inj] at hin
      exact List.cons_prefix_cons.mpr ⟨rfl, ih hwaits h₂ hin⟩
  | put _ ih =>
    cases h₂ with
    | refl => exact List.nil_prefix
    | put h₂ => exact List.cons_prefix_cons.mpr ⟨rfl, ih hwaits h₂ hin⟩
  | next _ ih =>
    cases h₂ with
    | refl => exact List.nil_prefix
    | next h₂ => exact List.cons_prefix_cons.mpr ⟨rfl, ih hwaits h₂ hin⟩

/-! ## Section 2: Filling up a round

    A dialogue that is fed one item over and over comes to its end. -/

/-- How many items are read if all of them are `b`. -/
def fill (b : β) : Dialogue β → Nat
  | done => 0
  | get n k => n + (k (List.replicate n b)).fill b
  | put _ d => d.fill b

theorem feed_replicate (b : β) (d : Dialogue β) :
    d.feed (List.replicate (d.fill b) b) = some [] := by
  induction d with
  | done => rfl
  | get n k ih =>
    rw [fill, List.replicate_add, feed_get, if_pos (by simp), List.take_left' (by simp),
      List.drop_left' (by simp)]
    exact ih _
  | put n d ih => exact ih

/-- Wherever the dialogue waits, `m` items `b` are enough to end it. -/
def Ends (b : β) (m : Nat) : Dialogue β → Prop
  | done => True
  | get n k =>
    (∀ got, got.length < n →
      n - got.length + (k (got ++ List.replicate (n - got.length) b)).fill b ≤ m) ∧
    ∀ bs, bs.length = n → (k bs).Ends b m
  | put _ d => d.Ends b m

/-- The items `b` that end a dialogue that waits with a part `got` read. -/
theorem Ends.feed {b : β} {m n : Nat} {k : List β → Dialogue β} (h : (get n k).Ends b m)
    {got : List β} (hgot : got.length < n) :
    ∃ j ≤ m, (get n k).feed (got ++ List.replicate j b) = some [] := by
  have hlen : (got ++ List.replicate (n - got.length) b).length = n := by
    rw [List.length_append, List.length_replicate]
    omega
  refine ⟨_, h.1 got hgot, ?_⟩
  rw [List.replicate_add, ← List.append_assoc, feed_get, if_pos (by simp; omega),
    List.take_left' hlen, List.drop_left' hlen]
  exact feed_replicate b _

/-- Every part of a round can be filled up as the whole round can. -/
theorem Path.ends {b : β} {m : Nat} (h : Path top d ts d') (hround : .next ∉ ts)
    (hends : d.Ends b m) : d'.Ends b m := by
  induction h with
  | refl => exact hends
  | got hlen _ ih =>
    rw [List.mem_cons, not_or] at hround
    exact ih hround.2 (hends.2 _ hlen)
  | put _ ih =>
    rw [List.mem_cons, not_or] at hround
    exact ih hround.2 hends
  | next _ _ => exact absurd List.mem_cons_self hround

end Dialogue

end Async
