import Mathlib.Data.List.Basic

/-! # Machines on Streams

    A machine reads a stream symbol by symbol.  After each symbol it may write
    some symbols, changes its state, and may stop.  The stream arrives in
    reads of any length; what the machine writes does not depend on how the
    stream is cut, because feeding is sequential composition. -/

namespace Streams

variable {σ α β : Type}

/-- What a machine has done with some input. -/
structure Fed (σ β : Type) where
  state   : σ
  output  : List β
  stopped : Bool
  deriving DecidableEq

namespace Fed

/-- A machine that has done nothing yet. -/
def idle (s : σ) : Fed σ β := ⟨s, [], false⟩

/-- Go on after `r`, unless the machine has stopped. -/
def andThen (r : Fed σ β) (k : σ → Fed σ β) : Fed σ β :=
  if r.stopped then r else ⟨(k r.state).state, r.output ++ (k r.state).output, (k r.state).stopped⟩

theorem andThen_stopped {r : Fed σ β} (h : r.stopped = true) (k : σ → Fed σ β) :
    r.andThen k = r :=
  if_pos h

theorem andThen_running {r : Fed σ β} (h : r.stopped = false) (k : σ → Fed σ β) :
    r.andThen k =
      ⟨(k r.state).state, r.output ++ (k r.state).output, (k r.state).stopped⟩ := by
  rw [andThen, h]
  rfl

@[simp] theorem idle_andThen (s : σ) (k : σ → Fed σ β) : (idle s).andThen k = k s := rfl

theorem andThen_assoc (r : Fed σ β) (k k' : σ → Fed σ β) :
    (r.andThen k).andThen k' = r.andThen fun s => (k s).andThen k' := by
  cases h : r.stopped with
  | true => rw [andThen_stopped h, andThen_stopped h, andThen_stopped h]
  | false =>
    rw [andThen_running h, andThen_running h]
    cases hk : (k r.state).stopped with
    | true => rw [andThen_stopped rfl, andThen_stopped hk, hk]
    | false => rw [andThen_running rfl, andThen_running hk, List.append_assoc]

end Fed

/-- A machine, given by what it does with one symbol. -/
structure Machine (σ α β : Type) where
  step : σ → α → Fed σ β

namespace Machine

variable (m : Machine σ α β)

/-- Feed symbols until the machine stops. -/
def feed : List α → σ → Fed σ β
  | [], s => .idle s
  | a :: as, s => (m.step s a).andThen (feed as)

@[simp] theorem feed_nil (s : σ) : m.feed [] s = .idle s := rfl

theorem feed_cons (a : α) (as : List α) (s : σ) :
    m.feed (a :: as) s = (m.step s a).andThen (m.feed as) := rfl

theorem feed_append (as as' : List α) (s : σ) :
    m.feed (as ++ as') s = (m.feed as s).andThen (m.feed as') := by
  induction as generalizing s with
  | nil => rfl
  | cons a as ih =>
    rw [List.cons_append, feed_cons, feed_cons, Fed.andThen_assoc]
    exact congrArg _ (funext ih)

/-- Feed one read after the other. -/
def feedReads : List (List α) → σ → Fed σ β
  | [], s => .idle s
  | r :: rs, s => (m.feed r s).andThen (feedReads rs)

/-- **How a stream is cut into reads does not matter.** -/
theorem feedReads_eq (reads : List (List α)) (s : σ) :
    m.feedReads reads s = m.feed reads.flatten s := by
  induction reads generalizing s with
  | nil => rfl
  | cons r rs ih =>
    rw [List.flatten_cons, feed_append, feedReads]
    exact congrArg _ (funext ih)

/-- A machine of which no step stops does not stop. -/
theorem feed_stopped (h : ∀ s a, (m.step s a).stopped = false) (as : List α) (s : σ) :
    (m.feed as s).stopped = false := by
  induction as generalizing s with
  | nil => rfl
  | cons a as ih =>
    rw [feed_cons, Fed.andThen_running (h s a)]
    exact ih _

/-- The machine computes `spec`, although in a state `s` it holds back the
    symbols `pending s` that it has read and not answered.  At the end of the
    input they are worth `final s`. -/
structure Computes (spec : List α → List β) (pending : σ → List α) (final : σ → List β) :
    Prop where
  held : ∀ s, spec (pending s) = final s
  runs : ∀ s a as, (m.step s a).stopped = false →
    spec (pending s ++ a :: as) = (m.step s a).output ++ spec (pending (m.step s a).state ++ as)
  ends : ∀ s a as, (m.step s a).stopped = true →
    spec (pending s ++ a :: as) = (m.step s a).output

variable {m} in
/-- **What a machine computes**, by induction on its input. -/
theorem Computes.feed {spec : List α → List β} {pending : σ → List α} {final : σ → List β}
    (h : m.Computes spec pending final) (as : List α) (s : σ) :
    spec (pending s ++ as) =
      (m.feed as s).output ++ if (m.feed as s).stopped then [] else final (m.feed as s).state := by
  induction as generalizing s with
  | nil =>
    rw [List.append_nil, h.held]
    rfl
  | cons a as ih =>
    rw [feed_cons]
    cases hstop : (m.step s a).stopped with
    | true =>
      rw [Fed.andThen_stopped hstop, h.ends s a as hstop, hstop, if_pos rfl, List.append_nil]
    | false =>
      rw [Fed.andThen_running hstop, h.runs s a as hstop, ih]
      exact (List.append_assoc _ _ _).symm

end Machine

end Streams
