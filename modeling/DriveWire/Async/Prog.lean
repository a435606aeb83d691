import Mathlib

/-! # Resumable Programs

    An asynchronous task is modelled as a tree of effects.  At every node the
    task performs one effect `e : E` and resumes with a result of type `R e`.
    A node is a point where the task can be suspended, so a residual tree is
    exactly what an executor stores for a parked task.

    This module has the program type with its monad structure, three ways to
    look at a program (evaluation by a handler, the event sequences it can
    perform, replacement of effects by programs), and their bind rules.
    Nothing here refers to a particular effect signature. -/

namespace Async

/-- A program over effects `E` with results `R` that returns an `α`. -/
inductive Prog (E : Type) (R : E → Type) (α : Type) : Type where
  | ret : α → Prog E R α
  | eff : (e : E) → (R e → Prog E R α) → Prog E R α

/-- What one iteration of a task's loop returns: go round again, or leave. -/
inductive Flow (ρ : Type) where
  | again : Flow ρ
  | done  : ρ → Flow ρ

/-- One performed effect with its result. -/
abbrev Event {E : Type} (R : E → Type) : Type := (e : E) × R e

namespace Prog

variable {E : Type} {R : E → Type} {α β γ : Type}

/-- Sequencing grafts the continuation onto every leaf. -/
def bind : Prog E R α → (α → Prog E R β) → Prog E R β
  | ret a, f => f a
  | eff e k, f => eff e (fun r => (k r).bind f)

instance : Monad (Prog E R) where
  pure := ret
  bind := bind

/-- Perform a single effect and return its result. -/
def perform (e : E) : Prog E R (R e) := eff e ret

@[simp] theorem pure_eq (a : α) : (pure a : Prog E R α) = ret a := rfl

@[simp] theorem ret_bind (a : α) (f : α → Prog E R β) : (ret a >>= f) = f a := rfl

@[simp] theorem eff_bind (e : E) (k : R e → Prog E R α) (f : α → Prog E R β) :
    (eff e k >>= f) = eff e (fun r => k r >>= f) := rfl

@[simp] theorem perform_bind (e : E) (f : R e → Prog E R β) :
    (perform e >>= f) = eff e f := rfl

theorem bind_ret (p : Prog E R α) : (p >>= ret) = p := by
  induction p with
  | ret a => rfl
  | eff e k ih => exact congrArg (eff e) (funext ih)

theorem bind_bind (p : Prog E R α) (f : α → Prog E R β) (g : β → Prog E R γ) :
    (p >>= f >>= g) = (p >>= fun a => f a >>= g) := by
  induction p with
  | ret a => rfl
  | eff e k ih => exact congrArg (eff e) (funext ih)

instance : LawfulMonad (Prog E R) :=
  LawfulMonad.mk' _ (fun p => bind_ret p) (fun _ _ => rfl) bind_bind

/-! ## Section 1: Evaluation by a handler

    A handler answers every effect from a machine state; `none` means that the
    machine would wait for ever. -/

section eval

variable {M : Type} (h : (e : E) → M → Option (R e × M))

/-- Run a program to its end on a machine that answers every effect itself. -/
def eval : Prog E R α → M → Option (α × M)
  | ret a, m => some (a, m)
  | eff e k, m => (h e m).bind fun x => (k x.1).eval x.2

@[simp] theorem eval_ret (a : α) (m : M) : (ret a : Prog E R α).eval h m = some (a, m) := rfl

@[simp] theorem eval_eff (e : E) (k : R e → Prog E R α) (m : M) :
    (eff e k).eval h m = (h e m).bind fun x => (k x.1).eval h x.2 := rfl

theorem eval_bind (p : Prog E R α) (f : α → Prog E R β) (m : M) :
    (p >>= f).eval h m = (p.eval h m).bind fun x => (f x.1).eval h x.2 := by
  induction p generalizing m with
  | ret a => rfl
  | eff e k ih =>
    rw [eff_bind, eval_eff, eval_eff, Option.bind_assoc]
    exact congrArg _ (funext fun x => ih x.1 x.2)

end eval

section exec

variable {M : Type} (h : (e : E) → M → R e × M)

/-- Run a program to its end on a machine that never waits. -/
def exec : Prog E R α → M → α × M
  | ret a, m => (a, m)
  | eff e k, m => (k (h e m).1).exec (h e m).2

@[simp] theorem exec_ret (a : α) (m : M) : (ret a : Prog E R α).exec h m = (a, m) := rfl

@[simp] theorem exec_eff (e : E) (k : R e → Prog E R α) (m : M) :
    (eff e k).exec h m = (k (h e m).1).exec h (h e m).2 := rfl

theorem exec_bind (p : Prog E R α) (f : α → Prog E R β) (m : M) :
    (p >>= f).exec h m = (f (p.exec h m).1).exec h (p.exec h m).2 := by
  induction p generalizing m with
  | ret a => rfl
  | eff e k ih => exact ih _ _

end exec

/-! ## Section 2: Event sequences -/

/-- `Walk p es q`: performing the events `es` takes `p` to the residual `q`. -/
inductive Walk : Prog E R α → List (Event R) → Prog E R α → Prop where
  | refl : ∀ p, Walk p [] p
  | snoc : ∀ {p es e k} (r : R e), Walk p es (eff e k) → Walk p (es ++ [⟨e, r⟩]) (k r)

theorem Walk.cons {e : E} {k : R e → Prog E R α} (r : R e) {es : List (Event R)}
    {q : Prog E R α} (h : Walk (k r) es q) : Walk (eff e k) (⟨e, r⟩ :: es) q := by
  induction h with
  | refl => exact (Walk.refl (eff e k)).snoc r
  | snoc r' _ ih => exact Walk.snoc r' ih

/-- A walk through an effect has not begun, or begins with that effect. -/
theorem Walk.eff_cases {e : E} {k : R e → Prog E R α} {es : List (Event R)} {q : Prog E R α}
    (h : Walk (eff e k) es q) :
    (es = [] ∧ q = eff e k) ∨ ∃ r es', es = ⟨e, r⟩ :: es' ∧ Walk (k r) es' q := by
  induction h with
  | refl => exact .inl ⟨rfl, rfl⟩
  | snoc r' hwalk ih =>
    rcases ih with ⟨rfl, heq⟩ | ⟨r, es', rfl, hwalk'⟩
    · cases heq
      exact .inr ⟨r', [], rfl, .refl _⟩
    · exact .inr ⟨r, es' ++ [⟨_, r'⟩], rfl, hwalk'.snoc r'⟩

/-- A returned value is not left any more. -/
theorem Walk.ret_eq {a : α} {es : List (Event R)} {q : Prog E R α} (h : Walk (ret a) es q) :
    q = ret a := by
  induction h with
  | refl => rfl
  | snoc r _ ih => cases ih

theorem Walk.ret_nil {a : α} {es : List (Event R)} {q : Prog E R α} (h : Walk (ret a) es q) :
    es = [] := by
  cases h with
  | refl => rfl
  | snoc r hwalk => cases hwalk.ret_eq

/-! ## Section 3: Replacing effects by programs -/

section translate

variable {E' : Type} {R' : E' → Type}

/-- Replace every effect of a program by a program over another signature. -/
def translate (impl : (e : E) → Prog E' R' (R e)) : Prog E R α → Prog E' R' α
  | ret a => ret a
  | eff e k => impl e >>= fun r => (k r).translate impl

@[simp] theorem translate_ret (impl : (e : E) → Prog E' R' (R e)) (a : α) :
    (ret a : Prog E R α).translate impl = ret a := rfl

end translate

end Prog

end Async
