import DriveWire.Server.System

/-! # One Party Among Others

    The far end of the transports of some tasks, next to whatever else the
    environment has.  A step of the system serves the party, or lets it take
    a step of its own, or leaves it alone. -/

namespace DriveWire

open Async

variable {D F N P : Type}

/-- The far end of the transports of the tasks in `own`. -/
structure Party (P : Type) where
  own     : Tid → Prop
  /-- When these tasks may start. -/
  accepts : P → Prop
  serves  : (i : Io) → P → Poll i.Res → P → Prop
  /-- What the party does on its own. -/
  step    : P → P → Prop

namespace Party

def beside (a : Party P) (rest : Env D F N) : Env D F (P × N) where
  net := fun t i x r x' =>
    (a.own t ∧ a.serves i x.1 r x'.1 ∧ x'.2 = x.2) ∨
      (¬ a.own t ∧ x'.1 = x.1 ∧ rest.net t i x.2 r x'.2)
  sys := rest.sys
  connect := fun t x => (a.own t ∧ a.accepts x.1) ∨ (¬ a.own t ∧ rest.connect t x.2)
  netStep := fun x x' => (a.step x.1 x'.1 ∧ x'.2 = x.2) ∨ (x'.1 = x.1 ∧ rest.netStep x.2 x'.2)

/-- What a labelled step does to the party.  `live` are the tasks that have
    been started. -/
inductive Labelled (a : Party P) (live : Tid → Prop) : P → SysLabel D → P → Prop where
  | served : ∀ {t i r p p'}, a.own t → live t → a.serves i p (.ready r) p' →
      Labelled a live p (t, ⟨.io i, r⟩) p'
  | aside  : ∀ {t e r p}, a.own t → live t → (∀ i, e ≠ .io i) → Labelled a live p (t, ⟨e, r⟩) p
  | other  : ∀ {t e r p}, ¬ a.own t → Labelled a live p (t, ⟨e, r⟩) p

/-- What a step without a label does to the party. -/
inductive Silent (a : Party P) (live : Tid → Prop) : P → P → Prop where
  | waits : ∀ {t i p p'}, a.own t → live t → a.serves i p .pending p' → Silent a live p p'
  | step  : ∀ {p p'}, a.step p p' → Silent a live p p'
  | other : ∀ p, Silent a live p p

section steps

variable [VDisk D] [UnicodeTables] {a : Party P} {rest : Env D F N} {env : Env D F (P × N)}
  {c c' : SysConfig D F (P × N)}

omit [VDisk D] [UnicodeTables] in
theorem started_of_live {t : Tid} {p : Code D (Flow Exit)} (h : c.task t = .live p) :
    c.task t ≠ .idle := by
  rw [h]
  exact fun hidle => by cases hidle

theorem labelled_step (hnet : env.net = (a.beside rest).net) {l : SysLabel D}
    (hstep : Step (system env) c (some l) c') :
    a.Labelled (fun t => c.task t ≠ .idle) c.world.net.1 l c'.world.net.1 := by
  cases hstep with
  | ready t e k r w ht hpoll =>
    show a.Labelled _ c.world.net.1 _ w.net.1
    by_cases hio : ∃ i, e = .io i
    · obtain ⟨i, rfl⟩ := hio
      obtain ⟨x, hx, rfl⟩ := hpoll
      rw [hnet] at hx
      obtain ⟨hown, hserves, -⟩ | ⟨hown, hsame, -⟩ := hx
      · exact .served hown (started_of_live ht) hserves
      · show a.Labelled _ c.world.net.1 _ x.1
        rw [hsame]
        exact .other hown
    · have haside : ∀ i, e ≠ .io i := fun i he => hio ⟨i, he⟩
      rw [show w.net = _ from poll_net hpoll haside]
      by_cases hown : a.own t
      · exact .aside hown (started_of_live ht) haside
      · exact .other hown

theorem silent_step (hnet : env.net = (a.beside rest).net)
    (hnetStep : env.netStep = (a.beside rest).netStep) (hstep : Step (system env) c none c') :
    a.Silent (fun t => c.task t ≠ .idle) c.world.net.1 c'.world.net.1 := by
  cases hstep with
  | start | again | exit => exact .other _
  | ambient w hw =>
    obtain ⟨x, hx, rfl⟩ := hw
    rw [hnetStep] at hx
    obtain ⟨hown, -⟩ | ⟨hsame, -⟩ := hx
    · exact .step hown
    · show a.Silent _ c.world.net.1 x.1
      rw [hsame]
      exact .other _
  | pending t e k w ht hpoll =>
    show a.Silent _ c.world.net.1 w.net.1
    by_cases hio : ∃ i, e = .io i
    · obtain ⟨i, rfl⟩ := hio
      obtain ⟨x, hx, rfl⟩ := hpoll
      rw [hnet] at hx
      obtain ⟨hown, hserves, -⟩ | ⟨-, hsame, -⟩ := hx
      · exact .waits hown (started_of_live ht) hserves
      · show a.Silent _ c.world.net.1 x.1
        rw [hsame]
        exact .other _
    · rw [show w.net = _ from poll_net hpoll fun i he => hio ⟨i, he⟩]
      exact .other _

/-- The tasks of the party start when it accepts them, and it does not go back
    on that. -/
theorem accepts_of_started (hnet : env.net = (a.beside rest).net)
    (hnetStep : env.netStep = (a.beside rest).netStep)
    (hconnect : env.connect = (a.beside rest).connect)
    (hstart : ∀ t w, a.own t → mayStart env t w → env.connect t w.net)
    (hserves : ∀ i p r p', a.serves i p r p' → a.accepts p → a.accepts p')
    (hkeeps : ∀ p p', a.step p p' → a.accepts p → a.accepts p')
    {ok : SysConfig D F (P × N) → SysLabel D → Prop} {w : World D F (P × N)}
    {tr : List (SysLabel D)} (hrun : Run (system env) ok (Config.initial w) tr c) {t : Tid}
    (hown : a.own t) (hlive : c.task t ≠ .idle) : a.accepts c.world.net.1 := by
  have hparty : ∀ {live p p'}, a.Silent live p p' → a.accepts p → a.accepts p' := by
    intro live p p' hstep hp
    cases hstep with
    | waits _ _ h => exact hserves _ _ _ _ h hp
    | step h => exact hkeeps _ _ h hp
    | other => exact hp
  induction hrun with
  | refl => exact absurd rfl hlive
  | @silent tr c c' hrun hstep ih =>
    by_cases hidle : c.task t = .idle
    · -- this step has started the task
      cases hstep with
      | start u _ hmay =>
        by_cases htu : t = u
        · subst htu
          have haccept := hstart t _ hown hmay
          rw [hconnect] at haccept
          obtain ⟨-, haccept⟩ | ⟨hnot, -⟩ := haccept
          · exact haccept
          · exact absurd hown hnot
        · rw [Config.put_ne _ _ _ _ _ htu] at hlive
          exact absurd hidle hlive
      | again u hu | exit u _ hu =>
        have htu : t ≠ u := by
          rintro rfl
          rw [hidle] at hu
          cases hu
        rw [Config.put_ne _ _ _ _ _ htu] at hlive
        exact absurd hidle hlive
      | pending | ambient => exact absurd hidle hlive
    · exact hparty (silent_step hnet hnetStep hstep) (ih hidle)
  | @act tr c c' l hrun _ hstep ih =>
    by_cases hidle : c.task t = .idle
    · cases hstep with
      | ready u e k r w' hu _ =>
        have htu : t ≠ u := by
          rintro rfl
          rw [hidle] at hu
          cases hu
        rw [Config.put_ne _ _ _ _ _ htu] at hlive
        exact absurd hidle hlive
    · have haccept := ih hidle
      have hlabel := labelled_step hnet hstep
      generalize c.world.net.1 = p at haccept hlabel
      generalize c'.world.net.1 = p' at hlabel ⊢
      cases hlabel with
      | served _ _ h => exact hserves _ _ _ _ h haccept
      | aside | other => exact haccept

/-- **Run rule** for the party.  In the premises the run up to the step is at
    hand. -/
theorem run_along (hnet : env.net = (a.beside rest).net)
    (hnetStep : env.netStep = (a.beside rest).netStep)
    {ok : SysConfig D F (P × N) → SysLabel D → Prop} {J : List (SysLabel D) → P → Prop}
    {c₀ : SysConfig D F (P × N)} (h₀ : J [] c₀.world.net.1)
    (hsilent : ∀ tr c p', Run (system env) ok c₀ tr c → J tr c.world.net.1 →
      a.Silent (fun t => c.task t ≠ .idle) c.world.net.1 p' → J tr p')
    (hlabel : ∀ tr c l c', Run (system env) ok c₀ tr c → Step (system env) c (some l) c' →
      J tr c.world.net.1 →
      a.Labelled (fun t => c.task t ≠ .idle) c.world.net.1 l c'.world.net.1 →
      J (tr ++ [l]) c'.world.net.1)
    {tr : List (SysLabel D)} (hrun : Run (system env) ok c₀ tr c) : J tr c.world.net.1 := by
  induction hrun with
  | refl => exact h₀
  | silent hrun hstep ih => exact hsilent _ _ _ hrun ih (silent_step hnet hnetStep hstep)
  | act l hrun _ hstep ih => exact hlabel _ _ l _ hrun hstep ih (labelled_step hnet hstep)

end steps

end Party

end DriveWire
