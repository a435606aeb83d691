import DriveWire.Async.Prog

/-! # Interleaved Tasks

    A runtime runs any number of looping tasks over one shared world.  At
    each step an arbitrary task is polled at the effect it is suspended on;
    the poll may complete the effect, or leave the task where it is after
    changing the world (registering a waiter, for example).  Tasks start and
    finish during a run, and the environment can take steps of its own.

    Every property of an interleaving is a property of `Run`: the runs whose
    labelled steps all meet a condition `ok` on the state before the step. -/

namespace Async

/-- The outcome of polling a suspended task once. -/
inductive Poll (α : Type) where
  | pending : Poll α
  | ready   : α → Poll α

/-- A task that has not started, is running, or has finished. -/
inductive Task (E : Type) (R : E → Type) (ρ : Type) where
  | idle   : Task E R ρ
  | live   : Prog E R (Flow ρ) → Task E R ρ
  | exited : ρ → Task E R ρ

structure Config (T E : Type) (R : E → Type) (W ρ : Type) where
  world : W
  task  : T → Task E R ρ

/-- A step label: the task that completed an effect, and the effect. -/
abbrev Label (T : Type) {E : Type} (R : E → Type) : Type := T × Event R

/-- The loop body of every task, and how the world answers the effects. -/
structure Runtime (T E : Type) (R : E → Type) (W ρ : Type) where
  /-- One iteration of the task's loop. -/
  body : T → Prog E R (Flow ρ)
  /-- Polling task `t` at effect `e`. -/
  poll : T → (e : E) → W → Poll (R e) → W → Prop
  /-- Which tasks may be started. -/
  mayStart : T → W → Prop
  /-- What the world records when a task has finished. -/
  atExit : T → W → W
  /-- Steps of the environment alone. -/
  ambient : W → W → Prop

variable {T E : Type} {R : E → Type} {W ρ : Type}

/-- The configuration in which no task has started. -/
def Config.initial (w : W) : Config T E R W ρ where
  world := w
  task  := fun _ => .idle

variable [DecidableEq T]

/-- The configuration after task `t` moved to `x` and the world to `w`. -/
def Config.put (c : Config T E R W ρ) (t : T) (x : Task E R ρ) (w : W) : Config T E R W ρ where
  world := w
  task  := Function.update c.task t x

@[simp] theorem Config.put_world (c : Config T E R W ρ) (t : T) (x : Task E R ρ) (w : W) :
    (c.put t x w).world = w := rfl

@[simp] theorem Config.put_self (c : Config T E R W ρ) (t : T) (x : Task E R ρ) (w : W) :
    (c.put t x w).task t = x := by
  simp [Config.put]

@[simp] theorem Config.put_ne (c : Config T E R W ρ) (t u : T) (x : Task E R ρ) (w : W)
    (h : u ≠ t) : (c.put t x w).task u = c.task u := by
  simp [Config.put, h]

/-! ## Section 1: Steps and runs -/

/-- One step of an interleaving.  Only completed effects carry a label. -/
inductive Step (rt : Runtime T E R W ρ) :
    Config T E R W ρ → Option (Label T R) → Config T E R W ρ → Prop where
  | start : ∀ {c} t, c.task t = .idle → rt.mayStart t c.world →
      Step rt c none (c.put t (.live (rt.body t)) c.world)
  | ready : ∀ {c} t e k (r : R e) w, c.task t = .live (.eff e k) →
      rt.poll t e c.world (.ready r) w →
      Step rt c (some (t, ⟨e, r⟩)) (c.put t (.live (k r)) w)
  | pending : ∀ {c} t e k w, c.task t = .live (.eff e k) →
      rt.poll t e c.world .pending w → Step rt c none { c with world := w }
  | again : ∀ {c} t, c.task t = .live (.ret .again) →
      Step rt c none (c.put t (.live (rt.body t)) c.world)
  | exit : ∀ {c} t r, c.task t = .live (.ret (.done r)) →
      Step rt c none (c.put t (.exited r) (rt.atExit t c.world))
  | ambient : ∀ {c} w, rt.ambient c.world w → Step rt c none { c with world := w }

/-- The tasks without their environment. -/
def Runtime.alone (rt : Runtime T E R W ρ) : Runtime T E R W ρ :=
  { rt with ambient := fun _ _ => False }

theorem Step.of_alone {rt : Runtime T E R W ρ} {c c' : Config T E R W ρ} {l : Option (Label T R)}
    (h : Step rt.alone c l c') : Step rt c l c' := by
  cases h with
  | start t hidle hmay => exact .start t hidle hmay
  | ready t e k r w ht hpoll => exact .ready t e k r w ht hpoll
  | pending t e k w ht hpoll => exact .pending t e k w ht hpoll
  | again t ht => exact .again t ht
  | exit t r ht => exact .exit t r ht
  | ambient w hw => cases hw

/-- Runs whose labelled steps all meet `ok`, with their labels in order. -/
inductive Run (rt : Runtime T E R W ρ) (ok : Config T E R W ρ → Label T R → Prop) :
    Config T E R W ρ → List (Label T R) → Config T E R W ρ → Prop where
  | refl   : ∀ c, Run rt ok c [] c
  | silent : ∀ {c₀ tr c c'}, Run rt ok c₀ tr c → Step rt c none c' → Run rt ok c₀ tr c'
  | act    : ∀ {c₀ tr c c'} l, Run rt ok c₀ tr c → ok c l → Step rt c (some l) c' →
      Run rt ok c₀ (tr ++ [l]) c'

/-- The condition that every step meets. -/
def anyStep : Config T E R W ρ → Label T R → Prop := fun _ _ => True

variable {rt : Runtime T E R W ρ} {ok : Config T E R W ρ → Label T R → Prop}

theorem Run.mono {ok' : Config T E R W ρ → Label T R → Prop} (himp : ∀ c l, ok c l → ok' c l)
    {c₀ c : Config T E R W ρ} {tr : List (Label T R)} (h : Run rt ok c₀ tr c) :
    Run rt ok' c₀ tr c := by
  induction h with
  | refl => exact Run.refl _
  | silent _ hstep ih => exact Run.silent ih hstep
  | act l _ hok hstep ih => exact Run.act l ih (himp _ l hok) hstep

theorem Run.trans {c₀ c₁ c₂ : Config T E R W ρ} {tr tr' : List (Label T R)}
    (h : Run rt ok c₀ tr c₁) (h' : Run rt ok c₁ tr' c₂) : Run rt ok c₀ (tr ++ tr') c₂ := by
  induction h' with
  | refl => simpa using h
  | silent _ hstep ih => exact Run.silent ih hstep
  | act l _ hok hstep ih =>
    rw [← List.append_assoc]
    exact Run.act l ih hok hstep

/-- A run can be cut at each of its labels. -/
theorem Run.split {c₀ c : Config T E R W ρ} {tr₁ tr₂ : List (Label T R)} {l : Label T R}
    (h : Run rt ok c₀ (tr₁ ++ l :: tr₂) c) :
    ∃ c₁ c₂, Run rt ok c₀ tr₁ c₁ ∧ ok c₁ l ∧ Step rt c₁ (some l) c₂ ∧ Run rt ok c₂ tr₂ c := by
  generalize htr : tr₁ ++ l :: tr₂ = tr at h
  induction h generalizing tr₂ with
  | refl => simp at htr
  | silent _ hstep ih =>
    obtain ⟨c₁, c₂, h₁, hok, hl, h₂⟩ := ih htr
    exact ⟨c₁, c₂, h₁, hok, hl, h₂.silent hstep⟩
  | act l' hrun hok' hstep ih =>
    obtain rfl | ⟨ts, x, rfl⟩ := List.eq_nil_or_concat tr₂
    · obtain ⟨rfl, hlast⟩ := List.append_inj' htr rfl
      cases hlast
      exact ⟨_, _, hrun, hok', hstep, Run.refl _⟩
    · rw [List.concat_eq_append] at htr ⊢
      rw [← List.cons_append, ← List.append_assoc] at htr
      obtain ⟨htr', hlast⟩ := List.append_inj' htr rfl
      cases hlast
      obtain ⟨c₁, c₂, h₁, hok, hl, h₂⟩ := ih htr'
      exact ⟨c₁, c₂, h₁, hok, hl, h₂.act _ hok' hstep⟩

/-- What every permitted label satisfies holds of all labels of a run. -/
theorem Run.forall_label {p : Label T R → Prop} (hp : ∀ c l, ok c l → p l)
    {c₀ c : Config T E R W ρ} {tr : List (Label T R)} (h : Run rt ok c₀ tr c) : ∀ l ∈ tr, p l := by
  intro l hl
  obtain ⟨tr₁, tr₂, rfl⟩ := List.append_of_mem hl
  obtain ⟨c₁, _, _, hok, _⟩ := h.split
  exact hp c₁ l hok

/-- A condition on labels can be checked after the run. -/
theorem Run.meets {p : Label T R → Prop} {c₀ c : Config T E R W ρ} {tr : List (Label T R)}
    (h : Run rt anyStep c₀ tr c) (hp : ∀ l ∈ tr, p l) : Run rt (fun _ l => p l) c₀ tr c := by
  induction h with
  | refl => exact Run.refl _
  | silent _ hstep ih => exact Run.silent (ih hp) hstep
  | act l _ _ hstep ih =>
    have hbefore := ih fun l' hl' => hp l' (List.mem_append_left _ hl')
    exact Run.act l hbefore (hp l (List.mem_append_right _ (List.mem_singleton.mpr rfl))) hstep

/-- A deterministic evaluation is a run of one task, when the runtime can
    give every answer of the handler. -/
theorem Run.of_eval {h : (e : E) → W → Option (R e × W)} {t : T}
    (hpoll : ∀ e w r w', h e w = some (r, w') → rt.poll t e w (.ready r) w')
    (hok : ∀ c e r w', h e c.world = some (r, w') → ok c (t, ⟨e, r⟩))
    {p : Prog E R (Flow ρ)} {a : Flow ρ} {c₀ c : Config T E R W ρ} {tr : List (Label T R)} {w : W}
    (hrun : Run rt ok c₀ tr c) (ht : c.task t = .live p)
    (hp : p.eval h c.world = some (a, w)) :
    ∃ tr', Run rt ok c₀ tr' (c.put t (.live (.ret a)) w) := by
  induction p generalizing c tr with
  | ret b =>
    rw [Prog.eval_ret] at hp
    cases hp
    refine ⟨tr, ?_⟩
    have : c.put t (.live (.ret a)) c.world = c := by
      rw [Config.put, ← ht, Function.update_eq_self]
    rwa [this]
  | eff e k ih =>
    rw [Prog.eval_eff] at hp
    obtain ⟨⟨r, w₁⟩, hr, hk⟩ := Option.bind_eq_some_iff.mp hp
    have hstep := Step.ready t e k r w₁ ht (hpoll e _ r w₁ hr)
    obtain ⟨tr', hrun'⟩ := ih r (Run.act _ hrun (hok c e r w₁ hr) hstep) (Config.put_self ..) hk
    refine ⟨tr', ?_⟩
    simpa [Config.put] using hrun'

/-! ## Section 2: The events of one task -/

/-- The events task `t` performed in a run, in order. -/
def eventsOf (t : T) (tr : List (Label T R)) : List (Event R) :=
  tr.filterMap (fun l => if l.1 = t then some l.2 else none)

@[simp] theorem eventsOf_nil (t : T) : eventsOf t ([] : List (Label T R)) = [] := rfl

@[simp] theorem eventsOf_snoc_self (t : T) (tr : List (Label T R)) (e : Event R) :
    eventsOf t (tr ++ [(t, e)]) = eventsOf t tr ++ [e] := by
  simp [eventsOf]

@[simp] theorem eventsOf_snoc_ne (t u : T) (tr : List (Label T R)) (e : Event R) (h : u ≠ t) :
    eventsOf t (tr ++ [(u, e)]) = eventsOf t tr := by
  simp [eventsOf, h]

theorem mem_eventsOf {t : T} {tr : List (Label T R)} {e : Event R} :
    e ∈ eventsOf t tr ↔ (t, e) ∈ tr := by
  simp [eventsOf]

theorem eventsOf_append (t : T) (tr tr' : List (Label T R)) :
    eventsOf t (tr ++ tr') = eventsOf t tr ++ eventsOf t tr' :=
  List.filterMap_append

/-- The event of a task is a label of the run, and cuts the run in two. -/
theorem eventsOf_eq_append_cons {t : T} {tr : List (Label T R)} {es₁ es₂ : List (Event R)}
    {e : Event R} (h : eventsOf t tr = es₁ ++ e :: es₂) : ∃ tr₁ tr₂,
      tr = tr₁ ++ (t, e) :: tr₂ ∧ eventsOf t tr₁ = es₁ ∧ eventsOf t tr₂ = es₂ := by
  obtain ⟨tr₁, tr', rfl, h₁, h'⟩ := List.filterMap_eq_append_iff.mp h
  obtain ⟨others, l, tr₂, rfl, hothers, hl, h₂⟩ := List.filterMap_eq_cons_iff.mp h'
  have hown : l = (t, e) := by
    split at hl
    · rename_i ht
      rw [← ht, ← Option.some_inj.mp hl]
    · cases hl
  refine ⟨tr₁ ++ others, tr₂, ?_, ?_, h₂⟩
  · rw [hown, List.append_assoc]
  · have hnone : eventsOf t others = [] := List.filterMap_eq_nil_iff.mpr hothers
    rw [eventsOf_append, hnone, List.append_nil]
    exact h₁

/-- The events of a task are those of its finished loop iterations followed
    by those of the iteration it is in. -/
def Loops (body : Prog E R (Flow ρ)) (es : List (Event R)) : Task E R ρ → Prop
  | .idle => es = []
  | .live p => ∃ (rounds : List (List (Event R))) (cur : List (Event R)),
      es = rounds.flatten ++ cur ∧ (∀ b ∈ rounds, Prog.Walk body b (.ret .again)) ∧
        Prog.Walk body cur p
  | .exited r => ∃ (rounds : List (List (Event R))) (cur : List (Event R)),
      es = rounds.flatten ++ cur ∧ (∀ b ∈ rounds, Prog.Walk body b (.ret .again)) ∧
        Prog.Walk body cur (.ret (.done r))

theorem Loops.start (body : Prog E R (Flow ρ)) : Loops body [] (.live body) :=
  ⟨[], [], rfl, by simp, Prog.Walk.refl body⟩

theorem Loops.ready {body : Prog E R (Flow ρ)} {es : List (Event R)} {e : E}
    {k : R e → Prog E R (Flow ρ)} (r : R e) (h : Loops body es (.live (.eff e k))) :
    Loops body (es ++ [⟨e, r⟩]) (.live (k r)) := by
  obtain ⟨rounds, cur, rfl, hrounds, hcur⟩ := h
  exact ⟨rounds, cur ++ [⟨e, r⟩], by simp, hrounds, hcur.snoc r⟩

theorem Loops.again {body : Prog E R (Flow ρ)} {es : List (Event R)}
    (h : Loops body es (.live (.ret .again))) : Loops body es (.live body) := by
  obtain ⟨rounds, cur, rfl, hrounds, hcur⟩ := h
  refine ⟨rounds ++ [cur], [], by simp, ?_, Prog.Walk.refl body⟩
  intro b hb
  rcases List.mem_append.mp hb with hb | hb
  · exact hrounds b hb
  · rw [List.mem_singleton.mp hb]
    exact hcur

/-- In every run from the initial configuration, every task has performed a
    number of whole iterations of its body and a part of another. -/
theorem Run.loops {w : W} {c : Config T E R W ρ} {tr : List (Label T R)}
    (h : Run rt ok (Config.initial w) tr c) (t : T) :
    Loops (rt.body t) (eventsOf t tr) (c.task t) := by
  -- induction on the run; a step of another task changes neither side
  induction h with
  | refl => exact (rfl : eventsOf t [] = [])
  | silent _ hstep ih =>
    cases hstep with
    | start u hidle _ =>
      by_cases htu : t = u
      · subst htu
        rw [hidle] at ih
        rw [Config.put_self, show eventsOf t _ = [] from ih]
        exact Loops.start _
      · rwa [Config.put_ne _ _ _ _ _ htu]
    | pending => exact ih
    | again u hu =>
      by_cases htu : t = u
      · subst htu
        rw [hu] at ih
        rw [Config.put_self]
        exact ih.again
      · rwa [Config.put_ne _ _ _ _ _ htu]
    | exit u r hu =>
      by_cases htu : t = u
      · subst htu
        rw [hu] at ih
        rw [Config.put_self]
        exact ih
      · rwa [Config.put_ne _ _ _ _ _ htu]
    | ambient => exact ih
  | act l _ _ hstep ih =>
    cases hstep with
    | ready u e k r w' hu _ =>
      by_cases htu : t = u
      · subst htu
        rw [hu] at ih
        rw [Config.put_self, eventsOf_snoc_self]
        exact ih.ready r
      · rwa [Config.put_ne _ _ _ _ _ htu, eventsOf_snoc_ne _ _ _ _ (Ne.symm htu)]

/-- The events are those of some whole iterations and of a part of another. -/
structure Iterations (body : Prog E R (Flow ρ)) (es : List (Event R))
    (rounds : List (List (Event R))) (cur : List (Event R)) : Prop where
  events : es = rounds.flatten ++ cur
  whole  : ∀ b ∈ rounds, Prog.Walk body b (.ret .again)
  part   : ∃ p, Prog.Walk body cur p

theorem Loops.iterations {body : Prog E R (Flow ρ)} {es : List (Event R)} {x : Task E R ρ}
    (h : Loops body es x) : ∃ rounds cur, Iterations body es rounds cur := by
  cases x with
  | idle =>
    have hnone : es = [] := h
    exact ⟨[], [], by simpa using hnone, fun b hb => absurd hb List.not_mem_nil, body, .refl _⟩
  | live p =>
    obtain ⟨rounds, cur, hes, hrounds, hcur⟩ := h
    exact ⟨rounds, cur, hes, hrounds, p, hcur⟩
  | exited r =>
    obtain ⟨rounds, cur, hes, hrounds, hcur⟩ := h
    exact ⟨rounds, cur, hes, hrounds, _, hcur⟩

/-! ## Section 3: Schedules

    A runtime whose polls are computed by a function can be run along a list
    of tasks.  The result is a configuration that a run reaches. -/

/-- Let task `t` take its next step, if it has one. -/
def turn (rt : Runtime T E R W ρ) (poll : T → (e : E) → W → Poll (R e) × W)
    (start : T → W → Bool) (c : Config T E R W ρ) (t : T) : Config T E R W ρ :=
  match c.task t with
  | .idle => if start t c.world then c.put t (.live (rt.body t)) c.world else c
  | .live (.eff e k) =>
    match poll t e c.world with
    | (.ready r, w) => c.put t (.live (k r)) w
    | (.pending, w) => { c with world := w }
  | .live (.ret .again) => c.put t (.live (rt.body t)) c.world
  | .live (.ret (.done r)) => c.put t (.exited r) (rt.atExit t c.world)
  | .exited _ => c

/-- Let the listed tasks take turns. -/
def schedule (rt : Runtime T E R W ρ) (poll : T → (e : E) → W → Poll (R e) × W)
    (start : T → W → Bool) (c : Config T E R W ρ) (ts : List T) : Config T E R W ρ :=
  ts.foldl (turn rt poll start) c

/-- A task that gets no turn stays as it is. -/
theorem schedule_task {rt : Runtime T E R W ρ} {poll : T → (e : E) → W → Poll (R e) × W}
    {start : T → W → Bool} {ts : List T} {t : T} (ht : t ∉ ts) (c : Config T E R W ρ) :
    (schedule rt poll start c ts).task t = c.task t := by
  induction ts generalizing c with
  | nil => rfl
  | cons u ts ih =>
    rw [List.mem_cons, not_or] at ht
    have hturn : (turn rt poll start c u).task t = c.task t := by
      unfold turn
      split
      · split
        · exact c.put_ne u t _ _ ht.1
        · rfl
      · split
        · exact c.put_ne u t _ _ ht.1
        · rfl
      · exact c.put_ne u t _ _ ht.1
      · exact c.put_ne u t _ _ ht.1
      · rfl
    exact (ih ht.2 (turn rt poll start c u)).trans hturn

/-- The turn of task `t` is a step that meets `ok`. -/
def turnMeets (poll : T → (e : E) → W → Poll (R e) × W)
    (ok : Config T E R W ρ → Label T R → Prop) (c : Config T E R W ρ) (t : T) : Prop :=
  match c.task t with
  | .live (.eff e _) =>
    match (poll t e c.world).1 with
    | .ready r => ok c (t, ⟨e, r⟩)
    | .pending => True
  | _ => True

/-- All turns of a schedule meet `ok`. -/
def scheduleMeets (rt : Runtime T E R W ρ) (poll : T → (e : E) → W → Poll (R e) × W)
    (start : T → W → Bool) (ok : Config T E R W ρ → Label T R → Prop) :
    Config T E R W ρ → List T → Prop
  | _, [] => True
  | c, t :: ts => turnMeets poll ok c t ∧ scheduleMeets rt poll start ok (turn rt poll start c t) ts

theorem scheduleMeets_any {rt : Runtime T E R W ρ} {poll : T → (e : E) → W → Poll (R e) × W}
    {start : T → W → Bool} (c : Config T E R W ρ) (ts : List T) :
    scheduleMeets rt poll start anyStep c ts := by
  induction ts generalizing c with
  | nil => trivial
  | cons t ts ih =>
    refine ⟨?_, ih _⟩
    unfold turnMeets
    split
    · split <;> trivial
    · trivial

/-- The label of the turn of task `t`, if its effect is completed. -/
def turnLabels (poll : T → (e : E) → W → Poll (R e) × W) (c : Config T E R W ρ) (t : T) :
    List (Label T R) :=
  match c.task t with
  | .live (.eff e _) =>
    match (poll t e c.world).1 with
    | .ready r => [(t, ⟨e, r⟩)]
    | .pending => []
  | _ => []

/-- The labels of a schedule. -/
def scheduleLabels (rt : Runtime T E R W ρ) (poll : T → (e : E) → W → Poll (R e) × W)
    (start : T → W → Bool) : Config T E R W ρ → List T → List (Label T R)
  | _, [] => []
  | c, t :: ts => turnLabels poll c t ++ scheduleLabels rt poll start (turn rt poll start c t) ts

/-- A turn is a run of at most one step. -/
theorem run_turn {poll : T → (e : E) → W → Poll (R e) × W} {start : T → W → Bool}
    (hpoll : ∀ t e w, rt.poll t e w (poll t e w).1 (poll t e w).2)
    (hstart : ∀ t w, start t w = true → rt.mayStart t w) (c : Config T E R W ρ) (t : T)
    (hok : turnMeets poll ok c t) :
    Run rt ok c (turnLabels poll c t) (turn rt poll start c t) := by
  unfold turnMeets at hok
  unfold turn turnLabels
  -- a turn is a start, a poll, the end of an iteration, or nothing
  cases htask : c.task t with
  | idle =>
    dsimp only
    split
    · rename_i hs
      exact Run.silent (Run.refl c) (Step.start t htask (hstart t _ hs))
    · exact Run.refl c
  | exited r => exact Run.refl c
  | live p =>
    cases p with
    | ret a =>
      cases a with
      | again => exact Run.silent (Run.refl c) (Step.again t htask)
      | done r => exact Run.silent (Run.refl c) (Step.exit t r htask)
    | eff e k =>
      rw [htask] at hok
      have hp := hpoll t e c.world
      dsimp only at hok ⊢
      cases hanswer : poll t e c.world with
      | mk x w =>
        rw [hanswer] at hp hok
        cases x with
        | ready r => exact Run.act _ (Run.refl c) hok (Step.ready t e k r w htask hp)
        | pending => exact Run.silent (Run.refl c) (Step.pending t e k w htask hp)

/-- A schedule is a run. -/
theorem run_schedule {poll : T → (e : E) → W → Poll (R e) × W} {start : T → W → Bool}
    (hpoll : ∀ t e w, rt.poll t e w (poll t e w).1 (poll t e w).2)
    (hstart : ∀ t w, start t w = true → rt.mayStart t w) (c : Config T E R W ρ) (ts : List T)
    (hok : scheduleMeets rt poll start ok c ts) :
    Run rt ok c (scheduleLabels rt poll start c ts) (schedule rt poll start c ts) := by
  induction ts generalizing c with
  | nil => exact Run.refl c
  | cons t ts ih =>
    exact (run_turn hpoll hstart c t hok.1).trans (ih (turn rt poll start c t) hok.2)

end Async
