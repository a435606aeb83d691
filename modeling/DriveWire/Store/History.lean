import Mathlib.Data.List.Induction
import Mathlib.Logic.Function.Basic

/-! # Histories of a Store

    A store maps keys to values, and is read and written at one key at a time.
    In a legal history every read returns the value that was written last, or
    the initial one.  Nothing here refers to what the keys and values are. -/

namespace Store

/-- One step on a store. -/
inductive Act (K V : Type*) where
  | read  : K → V → Act K V
  | write : K → V → Act K V

variable {K V : Type*} [DecidableEq K]

/-- The store after a step. -/
def Act.apply : Act K V → (K → V) → K → V
  | .read _ _, m => m
  | .write k v, m => Function.update m k v

/-- The step can be taken in the store `m`. -/
def Act.Holds (m : K → V) : Act K V → Prop
  | .read k v => v = m k
  | .write _ _ => True

/-- The value that a step writes to `k`. -/
def Act.written (k : K) : Act K V → Option V
  | .read _ _ => none
  | .write k' v => if k' = k then some v else none

/-- The store after a history. -/
def after (m : K → V) (acts : List (Act K V)) : K → V := acts.foldl (fun m a => a.apply m) m

/-- The value that was written to `k` last. -/
def lastWrite (k : K) (acts : List (Act K V)) : Option V :=
  (acts.filterMap (Act.written k)).getLast?

/-- Every step of the history could be taken when its turn came. -/
def Legal (m : K → V) (acts : List (Act K V)) : Prop :=
  ∀ before a rest, acts = before ++ a :: rest → a.Holds (after m before)

variable {m : K → V} {acts : List (Act K V)}

@[simp] theorem after_nil (m : K → V) : after m [] = m := rfl

theorem after_append (m : K → V) (acts acts' : List (Act K V)) :
    after m (acts ++ acts') = after (after m acts) acts' :=
  List.foldl_append

theorem lastWrite_snoc (k : K) (acts : List (Act K V)) (a : Act K V) :
    lastWrite k (acts ++ [a]) = (a.written k).or (lastWrite k acts) := by
  cases h : a.written k with
  | none => simp [lastWrite, h]
  | some v => simp [lastWrite, h]

theorem Act.apply_eq (a : Act K V) (m : K → V) (k : K) :
    a.apply m k = (a.written k).getD (m k) := by
  cases a with
  | read k' v => rfl
  | write k' v =>
    by_cases hk : k' = k
    · simp [Act.apply, Act.written, hk]
    · simp [Act.apply, Act.written, hk, Ne.symm hk]

/-- What a key holds is what was written to it last. -/
theorem after_eq (m : K → V) (acts : List (Act K V)) (k : K) :
    after m acts k = (lastWrite k acts).getD (m k) := by
  induction acts using List.reverseRecOn with
  | nil => rfl
  | append_singleton acts a ih =>
    have hlast : after m (acts ++ [a]) k = a.apply (after m acts) k := by
      rw [after_append]
      rfl
    rw [hlast, a.apply_eq, ih, lastWrite_snoc]
    cases a.written k <;> rfl

theorem Legal.snoc {a : Act K V} (h : Legal m acts) (ha : a.Holds (after m acts)) :
    Legal m (acts ++ [a]) := by
  intro before a' rest heq
  obtain rfl | ⟨rest, x, rfl⟩ := List.eq_nil_or_concat rest
  · obtain ⟨rfl, hlast⟩ := List.append_inj' heq rfl
    cases hlast
    exact ha
  · rw [List.concat_eq_append, ← List.cons_append, ← List.append_assoc] at heq
    obtain ⟨heq, -⟩ := List.append_inj' heq rfl
    exact h before a' rest heq

/-- **A read returns the last write**, or the initial value if there was none. -/
theorem Legal.read {before rest : List (Act K V)} {k : K} {v : V}
    (h : Legal m (before ++ .read k v :: rest)) : v = (lastWrite k before).getD (m k) := by
  have hread : v = after m before k := h before _ rest rfl
  rwa [after_eq] at hread

end Store
