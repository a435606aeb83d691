import DriveWire.Async.Runtime

/-! # Protocols on Effects

    A protocol is a per-task state machine over effects: which effects a task
    may perform in a protocol state, which results it may rely on, and the
    state it reaches.  `Prog.Obeys` checks a program against a protocol by
    recursion on the program, with a postcondition on the returned value, so
    that it composes like a Hoare triple.

    The run rule `Discipline.run_invariant` turns it into invariants of
    interleavings: if every loop body obeys the protocol, and an invariant
    relating the protocol states of all tasks to the world is kept by every
    poll the protocol allows, then it holds in every state a run reaches. -/

namespace Async

structure Protocol (E : Type) (R : E → Type) (S : Type) where
  /-- The effects a task may perform in a protocol state. -/
  allows : S → E → Prop
  /-- The results it relies on. -/
  admits : S → (e : E) → R e → Prop
  /-- The protocol state after an effect. -/
  next : S → (e : E) → R e → S

variable {E : Type} {R : E → Type} {S α β ε : Type}

namespace Prog

/-- `p.Obeys P s Q`: from state `s`, every path through `p` performs allowed
    effects only, and ends with a result and a state that satisfy `Q`. -/
def Obeys (P : Protocol E R S) : Prog E R α → S → (α → S → Prop) → Prop
  | ret a, s, Q => Q a s
  | eff e k, s, Q => P.allows s e ∧ ∀ r, P.admits s e r → (k r).Obeys P (P.next s e r) Q

variable {P : Protocol E R S}

@[simp] theorem obeys_ret {a : α} {s : S} {Q : α → S → Prop} :
    (ret a : Prog E R α).Obeys P s Q ↔ Q a s := Iff.rfl

@[simp] theorem obeys_eff {e : E} {k : R e → Prog E R α} {s : S} {Q : α → S → Prop} :
    (eff e k).Obeys P s Q ↔
      P.allows s e ∧ ∀ r, P.admits s e r → (k r).Obeys P (P.next s e r) Q := Iff.rfl

@[simp] theorem obeys_perform {e : E} {s : S} {Q : R e → S → Prop} :
    (perform e : Prog E R (R e)).Obeys P s Q ↔
      P.allows s e ∧ ∀ r, P.admits s e r → Q r (P.next s e r) := Iff.rfl

theorem obeys_bind {p : Prog E R α} {f : α → Prog E R β} {s : S} {Q : β → S → Prop} :
    (p >>= f).Obeys P s Q ↔ p.Obeys P s (fun a s' => (f a).Obeys P s' Q) := by
  induction p generalizing s with
  | ret a => rfl
  | eff e k ih =>
    exact and_congr_right fun _ => forall_congr' fun r => imp_congr_right fun _ => ih r

theorem Obeys.mono {p : Prog E R α} {s : S} {Q Q' : α → S → Prop}
    (h : p.Obeys P s Q) (himp : ∀ a s', Q a s' → Q' a s') : p.Obeys P s Q' := by
  induction p generalizing s with
  | ret a => exact himp a s h
  | eff e k ih => exact ⟨h.1, fun r hr => ih r (h.2 r hr)⟩

theorem Obeys.and {p : Prog E R α} {s : S} {Q Q' : α → S → Prop} (h : p.Obeys P s Q)
    (h' : p.Obeys P s Q') : p.Obeys P s (fun a s' => Q a s' ∧ Q' a s') := by
  induction p generalizing s with
  | ret a => exact ⟨h, h'⟩
  | eff e k ih => exact ⟨h.1, fun r hr => ih r (h.2 r hr) (h'.2 r hr)⟩

/-- Sequencing, with the intermediate assertion given. -/
theorem Obeys.bind {p : Prog E R α} {f : α → Prog E R β} {s : S} {M : α → S → Prop}
    {Q : β → S → Prop} (hp : p.Obeys P s M) (hf : ∀ a s', M a s' → (f a).Obeys P s' Q) :
    (p >>= f).Obeys P s Q :=
  obeys_bind.mpr (hp.mono hf)

/-! ## Section 1: Event sequences of obedient programs -/

/-- The protocol state after a sequence of events. -/
def after (P : Protocol E R S) (s : S) (es : List (Event R)) : S :=
  es.foldl (fun s ev => P.next s ev.1 ev.2) s

@[simp] theorem after_nil (s : S) : after P s [] = s := rfl

@[simp] theorem after_snoc (s : S) (es : List (Event R)) (e : E) (r : R e) :
    after P s (es ++ [⟨e, r⟩]) = P.next (after P s es) e r := by
  simp [after]

theorem after_append (s : S) (es es' : List (Event R)) :
    after P s (es ++ es') = after P (after P s es) es' :=
  List.foldl_append ..

/-- What is left of an obedient program obeys the protocol from the state
    that its events have reached. -/
theorem Walk.obeys {p q : Prog E R α} {es : List (Event R)} {s : S} {Q : α → S → Prop}
    (h : Walk p es q) (hadm : ∀ s, ∀ ev ∈ es, P.admits s ev.1 ev.2) (hp : p.Obeys P s Q) :
    q.Obeys P (after P s es) Q := by
  induction h with
  | refl => exact hp
  | @snoc es e k r _ ih =>
    have hes := ih fun s ev hev => hadm s ev (List.mem_append_left _ hev)
    rw [after_snoc]
    exact hes.2 r (hadm _ ⟨e, r⟩ (List.mem_append_right _ (List.mem_singleton.mpr rfl)))

/-- What allowed effects preserve holds after any part of an obedient
    program. -/
theorem Walk.invariant {I : S → Prop}
    (hI : ∀ s e r, I s → P.allows s e → P.admits s e r → I (P.next s e r))
    {p q : Prog E R α} {es : List (Event R)} {s : S} {Q : α → S → Prop} (h : Walk p es q)
    (hadm : ∀ s, ∀ ev ∈ es, P.admits s ev.1 ev.2) (hp : p.Obeys P s Q) (hs : I s) :
    I (after P s es) := by
  induction h with
  | refl => exact hs
  | @snoc es e k r hwalk ih =>
    have hadm' := fun s ev hev => hadm s ev (List.mem_append_left _ hev)
    have hr := hadm (after P s es) ⟨e, r⟩ (List.mem_append_right _ (List.mem_singleton.mpr rfl))
    rw [after_snoc]
    exact hI _ e r (ih hadm') (hwalk.obeys hadm' hp).1 hr

/-- The protocol that allows everything and records it. -/
def history : Protocol E R (List (Event R)) where
  allows := fun _ _ => True
  admits := fun _ _ _ => True
  next   := fun es e r => es ++ [⟨e, r⟩]

/-- What `Obeys` says about the recorded events is true of every complete
    path through a program. -/
theorem Walk.recorded {p : Prog E R α} {es : List (Event R)} {a : α}
    {Q : α → List (Event R) → Prop} (h : Walk p es (ret a)) (hp : p.Obeys history [] Q) :
    Q a es := by
  have hafter : ∀ es : List (Event R), after (history : Protocol E R _) [] es = es := by
    intro es
    induction es using List.reverseRecOn with
    | nil => rfl
    | append_singleton es ev ih =>
      obtain ⟨e, r⟩ := ev
      rw [after_snoc, ih]
      rfl
  have hobeys := h.obeys (fun _ _ _ => trivial) hp
  rwa [hafter] at hobeys

/-- The protocol without state in which only the effects in `A` are allowed. -/
def only (A : E → Prop) : Protocol E R Unit where
  allows := fun _ e => A e
  admits := fun _ _ _ => True
  next   := fun _ _ _ => ()

/-- Every effect of `p` is in `A`. -/
def Only (A : E → Prop) (p : Prog E R α) : Prop := p.Obeys (only A) () (fun _ _ => True)

/-- A program whose effects all leave the protocol state `s` alone obeys the
    protocol from `s` to `s`. -/
theorem Only.obeys {A : E → Prop} {p : Prog E R α} {s : S} (h : p.Only A)
    (hA : ∀ e, A e → P.allows s e ∧ ∀ r, P.admits s e r → P.next s e r = s) :
    p.Obeys P s (fun _ s' => s' = s) := by
  induction p with
  | ret a => rfl
  | eff e k ih =>
    refine ⟨(hA e h.1).1, fun r hr => ?_⟩
    rw [(hA e h.1).2 r hr]
    exact ih r (h.2 r trivial)

/-- What is known of the recorded events of a program holds in any protocol
    that records these events in its state. -/
theorem Only.obeys_recording {A : E → Prop} {p : Prog E R α} (honly : p.Only A)
    {es : List (Event R)} {Q : α → List (Event R) → Prop} (h : p.Obeys history es Q)
    {record : List (Event R) → S}
    (hA : ∀ es e, A e → P.allows (record es) e ∧
      ∀ r, P.admits (record es) e r → P.next (record es) e r = record (es ++ [⟨e, r⟩])) :
    p.Obeys P (record es) (fun a s => ∃ es', s = record es' ∧ Q a es') := by
  induction p generalizing es with
  | ret a => exact ⟨es, rfl, h⟩
  | eff e k ih =>
    refine ⟨(hA es e honly.1).1, fun r hr => ?_⟩
    rw [(hA es e honly.1).2 r hr]
    exact ih r (honly.2 r trivial) (h.2 r trivial)

/-- A program that performs effects only that are always allowed. -/
theorem Only.obeys_always {A : E → Prop} {p : Prog E R α} (h : p.Only A)
    (hA : ∀ s e, A e → P.allows s e) (s : S) : p.Obeys P s (fun _ _ => True) := by
  induction p generalizing s with
  | ret a => trivial
  | eff e k ih => exact ⟨hA s e h.1, fun r _ => ih r (h.2 r trivial) _⟩

theorem Only.mono {A B : E → Prop} {p : Prog E R α} (h : p.Only A) (hAB : ∀ e, A e → B e) :
    p.Only B := by
  induction p with
  | ret a => trivial
  | eff e k ih => exact ⟨hAB e h.1, fun r hr => ih r (h.2 r hr)⟩

@[simp] theorem only_ret {A : E → Prop} {a : α} : (ret a : Prog E R α).Only A := trivial

@[simp] theorem only_eff {A : E → Prop} {e : E} {k : R e → Prog E R α} :
    (eff e k).Only A ↔ A e ∧ ∀ r, (k r).Only A := by
  simp [Only, only]

theorem Only.bind {A : E → Prop} {p : Prog E R α} {f : α → Prog E R β} (hp : p.Only A)
    (hf : ∀ a, (f a).Only A) : (p >>= f).Only A :=
  Obeys.bind hp fun a _ _ => hf a

theorem Only.run_bind {A : E → Prop} {x : ExceptT ε (Prog E R) α}
    {f : α → ExceptT ε (Prog E R) β} (hx : x.run.Only A) (hf : ∀ a, (f a).run.Only A) :
    (x >>= f).run.Only A := by
  rw [ExceptT.run_bind]
  refine hx.bind fun r => ?_
  cases r with
  | ok a => exact hf a
  | error e => trivial

/-- What every effect of a program preserves is preserved by a whole
    execution. -/
theorem Only.exec {M : Type} {A : E → Prop} {p : Prog E R α} (hp : p.Only A)
    (h : (e : E) → M → R e × M) {Q : M → M → Prop} (hrefl : ∀ m, Q m m)
    (htrans : ∀ {a b c}, Q a b → Q b c → Q a c) (hstep : ∀ e m, A e → Q m (h e m).2) (m : M) :
    Q m (p.exec h m).2 := by
  induction p generalizing m with
  | ret a => exact hrefl m
  | eff e k ih => exact htrans (hstep e m hp.1) (ih _ (hp.2 _ trivial) _)

/-- An obedient program that is evaluated ends as it should, if the handler
    answers as the program relies on and keeps `I`. -/
theorem Obeys.eval {M : Type} {h : (e : E) → M → Option (R e × M)} {I : M → Prop}
    (hI : ∀ s e m r m', I m → P.allows s e → h e m = some (r, m') → P.admits s e r ∧ I m')
    {p : Prog E R α} {s : S} {Q : α → S → Prop} (hp : p.Obeys P s Q) {m m' : M} {a : α}
    (hm : I m) (heval : p.eval h m = some (a, m')) : (∃ s', Q a s') ∧ I m' := by
  induction p generalizing s m with
  | ret b =>
    cases (heval : some (b, m) = some (a, m'))
    exact ⟨⟨s, hp⟩, hm⟩
  | eff e k ih =>
    rw [eval_eff] at heval
    obtain ⟨⟨r, m₁⟩, hr, hk⟩ := Option.bind_eq_some_iff.mp heval
    obtain ⟨hadm, hm₁⟩ := hI s e m r m₁ hm hp.1 hr
    exact ih r (hp.2 r hadm) hm₁ hk

/-- An obedient program stays obedient when each effect is replaced by a
    program that does, between the corresponding states `σ s`, what the
    protocol says of the effect. -/
theorem Obeys.translate {E' : Type} {R' : E' → Type} {S' : Type} {P' : Protocol E' R' S'}
    {impl : (e : E) → Prog E' R' (R e)} {σ : S → S'}
    (himpl : ∀ s e, P.allows s e →
      (impl e).Obeys P' (σ s) fun r s' => P.admits s e r ∧ s' = σ (P.next s e r))
    {p : Prog E R α} {s : S} {Q : α → S → Prop} (hp : p.Obeys P s Q) :
    (p.translate impl).Obeys P' (σ s) fun a s' => ∃ s₁, s' = σ s₁ ∧ Q a s₁ := by
  induction p generalizing s with
  | ret a => exact ⟨s, rfl, hp⟩
  | eff e k ih =>
    refine (himpl s e hp.1).bind fun r s' h => ?_
    obtain ⟨hadm, rfl⟩ := h
    exact ih r (hp.2 r hadm)

end Prog

/-! ## Section 2: Protocols along runs -/

variable {T W ρ : Type} [DecidableEq T]

/-- A protocol that every loop body of a runtime obeys. -/
structure Discipline (rt : Runtime T E R W ρ) (S : Type) extends Protocol E R S where
  /-- The state of a task that has not started. -/
  off : S
  /-- The state of a task that has finished. -/
  gone : S
  /-- The state in which a task starts an iteration of its loop. -/
  enter : T → S
  /-- The states in which it may end one. -/
  leave : T → Flow ρ → S → Prop
  body_obeys : ∀ t, (rt.body t).Obeys toProtocol (enter t) (leave t)

variable {rt : Runtime T E R W ρ}

/-- A task and its protocol state fit together. -/
def Discipline.Fits (d : Discipline rt S) (t : T) : Task E R ρ → S → Prop
  | .idle, s => s = d.off
  | .live p, s => p.Obeys d.toProtocol s (d.leave t)
  | .exited _, s => s = d.gone

/-- What an invariant `J` on protocol states and world must satisfy to hold
    along every run. -/
structure Discipline.Keeps (d : Discipline rt S) (ok : Config T E R W ρ → Label T R → Prop)
    (J : (T → S) → W → Prop) : Prop where
  start : ∀ g w t, J g w → g t = d.off → rt.mayStart t w →
    J (Function.update g t (d.enter t)) w
  again : ∀ g w t, J g w → d.leave t .again (g t) → J (Function.update g t (d.enter t)) w
  exit : ∀ g w t r, J g w → d.leave t (.done r) (g t) →
    J (Function.update g t d.gone) (rt.atExit t w)
  pending : ∀ g w t e w', J g w → d.allows (g t) e → rt.poll t e w .pending w' → J g w'
  ready : ∀ (c : Config T E R W ρ) g t e k (r : R e) w', J g c.world →
    (∀ u, d.Fits u (c.task u) (g u)) → c.task t = .live (.eff e k) → d.allows (g t) e →
    ok c (t, ⟨e, r⟩) → rt.poll t e c.world (.ready r) w' →
    d.admits (g t) e r ∧ J (Function.update g t (d.next (g t) e r)) w'
  ambient : ∀ g w w', J g w → rt.ambient w w' → J g w'

/-- The same for an invariant that also speaks of the labels of the run. -/
structure Discipline.KeepsAlong (d : Discipline rt S)
    (ok : Config T E R W ρ → Label T R → Prop) (J : List (Label T R) → (T → S) → W → Prop) :
    Prop where
  start : ∀ tr g w t, J tr g w → g t = d.off → rt.mayStart t w →
    J tr (Function.update g t (d.enter t)) w
  again : ∀ tr g w t, J tr g w → d.leave t .again (g t) →
    J tr (Function.update g t (d.enter t)) w
  exit : ∀ tr g w t r, J tr g w → d.leave t (.done r) (g t) →
    J tr (Function.update g t d.gone) (rt.atExit t w)
  pending : ∀ tr g w t e w', J tr g w → d.allows (g t) e → rt.poll t e w .pending w' → J tr g w'
  ready : ∀ tr (c : Config T E R W ρ) g t e k (r : R e) w', J tr g c.world →
    (∀ u, d.Fits u (c.task u) (g u)) → c.task t = .live (.eff e k) → d.allows (g t) e →
    ok c (t, ⟨e, r⟩) → rt.poll t e c.world (.ready r) w' →
    d.admits (g t) e r ∧ J (tr ++ [(t, ⟨e, r⟩)]) (Function.update g t (d.next (g t) e r)) w'
  ambient : ∀ tr g w w', J tr g w → rt.ambient w w' → J tr g w'

/-- The protocol states exist, fit the tasks, and satisfy `J`. -/
def Discipline.Holds (d : Discipline rt S) (J : (T → S) → W → Prop) (c : Config T E R W ρ)
    (g : T → S) : Prop :=
  J g c.world ∧ ∀ t, d.Fits t (c.task t) (g t)

theorem Discipline.fits_put (d : Discipline rt S) {c : Config T E R W ρ} {g : T → S}
    (h : ∀ u, d.Fits u (c.task u) (g u)) (t : T) (x : Task E R ρ) (s : S) (w : W)
    (hx : d.Fits t x s) (u : T) : d.Fits u ((c.put t x w).task u) (Function.update g t s u) := by
  by_cases hu : u = t
  · subst hu
    simpa using hx
  · simpa [hu] using h u

/-- A task whose loop body can always go on obeys the protocol along a whole
    run, from the state that all its events have reached. -/
def Tracks (P : Protocol E R S) (Q : Flow ρ → S → Prop) (s₀ : S) (es : List (Event R)) :
    Task E R ρ → Prop
  | .idle => es = []
  | .live p => p.Obeys P (Prog.after P s₀ es) Q
  | .exited r => Q (.done r) (Prog.after P s₀ es)

/-- Whole iterations lead from one beginning of the body to the next. -/
theorem obeys_after_rounds {P : Protocol E R S} {Q : Flow ρ → S → Prop} {s : S}
    {body : Prog E R (Flow ρ)} (hstart : body.Obeys P s Q)
    (hagain : ∀ s', Q .again s' → body.Obeys P s' Q) {rounds : List (List (Event R))}
    (hrounds : ∀ b ∈ rounds, Prog.Walk body b (.ret .again))
    (hadm : ∀ s', ∀ ev ∈ rounds.flatten, P.admits s' ev.1 ev.2) :
    body.Obeys P (Prog.after P s rounds.flatten) Q := by
  induction rounds generalizing s with
  | nil => exact hstart
  | cons b rounds ih =>
    rw [List.flatten_cons] at hadm
    have hleave : (Prog.ret .again : Prog E R (Flow ρ)).Obeys P (Prog.after P s b) Q :=
      (hrounds b List.mem_cons_self).obeys
        (fun s' ev hev => hadm s' ev (List.mem_append_left _ hev)) hstart
    rw [List.flatten_cons, Prog.after_append]
    exact ih (hagain _ hleave) (fun b' hb' => hrounds b' (List.mem_cons_of_mem _ hb'))
      fun s' ev hev => hadm s' ev (List.mem_append_right _ hev)

theorem Loops.tracks {P : Protocol E R S} {Q : Flow ρ → S → Prop} {s : S}
    {body : Prog E R (Flow ρ)} (hstart : body.Obeys P s Q)
    (hagain : ∀ s', Q .again s' → body.Obeys P s' Q) {es : List (Event R)} {x : Task E R ρ}
    (h : Loops body es x) (hadm : ∀ s', ∀ ev ∈ es, P.admits s' ev.1 ev.2) :
    Tracks P Q s es x := by
  have hpart : ∀ {rounds : List (List (Event R))} {cur : List (Event R)} {p : Prog E R (Flow ρ)},
      es = rounds.flatten ++ cur → (∀ b ∈ rounds, Prog.Walk body b (.ret .again)) →
      Prog.Walk body cur p → p.Obeys P (Prog.after P s es) Q := by
    rintro rounds cur p rfl hrounds hcur
    rw [Prog.after_append]
    apply hcur.obeys fun s' ev hev => hadm s' ev (List.mem_append_right _ hev)
    exact obeys_after_rounds hstart hagain hrounds
      fun s' ev hev => hadm s' ev (List.mem_append_left _ hev)
  cases x with
  | idle => exact h
  | live p =>
    obtain ⟨rounds, cur, hes, hrounds, hcur⟩ := h
    exact hpart hes hrounds hcur
  | exited r =>
    obtain ⟨rounds, cur, hes, hrounds, hcur⟩ := h
    exact hpart hes hrounds hcur

theorem Run.tracks {ok : Config T E R W ρ → Label T R → Prop} {P : Protocol E R S}
    {Q : Flow ρ → S → Prop} {s : S} {t : T} (hstart : (rt.body t).Obeys P s Q)
    (hagain : ∀ s', Q .again s' → (rt.body t).Obeys P s' Q) {w : W} {c : Config T E R W ρ}
    {tr : List (Label T R)} (hrun : Run rt ok (Config.initial w) tr c)
    (hadm : ∀ s', ∀ ev ∈ eventsOf t tr, P.admits s' ev.1 ev.2) :
    Tracks P Q s (eventsOf t tr) (c.task t) :=
  (hrun.loops t).tracks hstart hagain hadm

/-- What such a task does next is allowed in the state it has reached. -/
theorem Run.allows {ok : Config T E R W ρ → Label T R → Prop} {P : Protocol E R S}
    {Q : Flow ρ → S → Prop} {s : S} {t : T} (hstart : (rt.body t).Obeys P s Q)
    (hagain : ∀ s', Q .again s' → (rt.body t).Obeys P s' Q) {w : W} {c c' : Config T E R W ρ}
    {tr : List (Label T R)} (hrun : Run rt ok (Config.initial w) tr c)
    (hadm : ∀ s', ∀ ev ∈ eventsOf t tr, P.admits s' ev.1 ev.2) {e : E} {r : R e}
    (hstep : Step rt c (some (t, ⟨e, r⟩)) c') : P.allows (Prog.after P s (eventsOf t tr)) e := by
  have htracks := hrun.tracks hstart hagain hadm
  cases hstep with
  | ready t e k r w' ht _ =>
    rw [ht] at htracks
    exact htracks.1

/-- **Run rule.** An invariant that every allowed poll keeps holds in every
    state that a run reaches, with the labels that lead there. -/
theorem Discipline.run_along (d : Discipline rt S)
    {ok : Config T E R W ρ → Label T R → Prop} {J : List (Label T R) → (T → S) → W → Prop}
    (hJ : d.KeepsAlong ok J) {c₀ c : Config T E R W ρ} {tr : List (Label T R)}
    (hrun : Run rt ok c₀ tr c) (h₀ : ∃ g, d.Holds (J []) c₀ g) : ∃ g, d.Holds (J tr) c g := by
  -- each step moves the ghost state of its task, and the task fits it again
  induction hrun with
  | refl => exact h₀
  | silent _ hstep ih =>
    obtain ⟨g, hg, hfit⟩ := ih
    cases hstep with
    | start t hidle hmay =>
      have hoff : g t = d.off := by
        have := hfit t
        rwa [hidle] at this
      exact ⟨_, hJ.start _ g _ t hg hoff hmay, d.fits_put hfit t _ _ _ (d.body_obeys t)⟩
    | pending t e k w ht hpoll =>
      have hobeys := hfit t
      rw [ht] at hobeys
      exact ⟨g, hJ.pending _ g _ t e w hg hobeys.1 hpoll, hfit⟩
    | again t ht =>
      have hleave := hfit t
      rw [ht] at hleave
      exact ⟨_, hJ.again _ g _ t hg hleave, d.fits_put hfit t _ _ _ (d.body_obeys t)⟩
    | exit t r ht =>
      have hleave := hfit t
      rw [ht] at hleave
      exact ⟨_, hJ.exit _ g _ t r hg hleave, d.fits_put hfit t _ _ _ rfl⟩
    | ambient w hw => exact ⟨g, hJ.ambient _ g _ w hg hw, hfit⟩
  | act l _ hok hstep ih =>
    obtain ⟨g, hg, hfit⟩ := ih
    cases hstep with
    | ready t e k r w ht hpoll =>
      have hobeys := hfit t
      rw [ht] at hobeys
      obtain ⟨hadm, hg'⟩ := hJ.ready _ _ g t e k r w hg hfit ht hobeys.1 hok hpoll
      exact ⟨_, hg', d.fits_put hfit t _ _ _ (hobeys.2 r hadm)⟩

/-- The run rule for an invariant that does not speak of the labels. -/
theorem Discipline.run_invariant (d : Discipline rt S)
    {ok : Config T E R W ρ → Label T R → Prop} {J : (T → S) → W → Prop} (hJ : d.Keeps ok J)
    {c₀ c : Config T E R W ρ} {tr : List (Label T R)} (hrun : Run rt ok c₀ tr c)
    (h₀ : ∃ g, d.Holds J c₀ g) : ∃ g, d.Holds J c g := by
  have hkeeps : d.KeepsAlong ok (fun _ => J) :=
    ⟨fun _ => hJ.start, fun _ => hJ.again, fun _ => hJ.exit, fun _ => hJ.pending,
      fun _ => hJ.ready, fun _ => hJ.ambient⟩
  exact d.run_along hkeeps hrun h₀

omit [DecidableEq T] in
/-- A run from the initial configuration starts with every task off. -/
theorem Discipline.holds_initial (d : Discipline rt S) {J : (T → S) → W → Prop} {w : W}
    (h : J (fun _ => d.off) w) : ∃ g, d.Holds J (Config.initial w) g :=
  ⟨fun _ => d.off, h, fun _ => rfl⟩

end Async
