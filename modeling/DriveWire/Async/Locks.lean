import DriveWire.Async.Protocol

/-! # Locks of Interleaved Tasks

    A runtime whose world keeps a table of guards: for each lock the tasks
    that hold it, each in a mode that is either sole or shared with others.
    The discipline is that data behind a lock is used only while a guard of
    the lock exists, and changed only under a sole one; no task asks for a
    lock that it holds, and no iteration of a loop ends with a guard.

    What the discipline gives is the meaning of a critical section: from the
    moment a task has a guard until it drops it, nobody else changes what the
    lock protects, and nobody else looks at it if the guard is a sole one. -/

namespace Async

/-! ## Section 1: Scopes -/

/-- What an effect has to do with the locks `L`, taken in modes `M`. -/
inductive Access (L M : Type) where
  | take   : L → M → Access L M
  | drop   : L → Access L M
  /-- To look at the data behind a lock. -/
  | use    : L → Access L M
  /-- To change it. -/
  | change : L → Access L M
  | none   : Access L M

variable {T E : Type} {R : E → Type} {W ρ L M : Type} [DecidableEq T] [DecidableEq L]

/-- The guards that exist after task `t` has completed an access. -/
def Access.after (t : T) : Access L M → (L → List (T × M)) → L → List (T × M)
  | take l m, holders => Function.update holders l ((t, m) :: holders l)
  | drop l, holders => Function.update holders l ((holders l).filter (·.1 ≠ t))
  | _, holders => holders

/-- The discipline of one task; the state is the list of its guards. -/
def guarding (access : E → Access L M) (sole : M → Prop) : Protocol E R (List (L × M)) where
  allows := fun held e =>
    match access e with
    | .take l _ => ∀ m, (l, m) ∉ held
    | .drop l | .use l => ∃ m, (l, m) ∈ held
    | .change l => ∃ m, (l, m) ∈ held ∧ sole m
    | .none => True
  admits := fun _ _ _ => True
  next := fun held e _ =>
    match access e with
    | .take l m => (l, m) :: held
    | .drop l => held.filter (·.1 ≠ l)
    | _ => held

/-- A runtime with a table of guards. -/
structure LockTable (rt : Runtime T E R W ρ) (L M : Type) [DecidableEq L] where
  access  : E → Access L M
  /-- The modes in which a guard excludes all others. -/
  sole    : M → Prop
  holders : W → L → List (T × M)
  ready : ∀ {t e w w'} {r : R e}, rt.poll t e w (.ready r) w' →
    holders w' = (access e).after t (holders w)
  /-- A lock is taken only when the guards that exist leave room. -/
  fits : ∀ {t e w w' l m} {r : R e}, access e = .take l m → rt.poll t e w (.ready r) w' →
    (sole m → holders w l = []) ∧ ∀ h ∈ holders w l, ¬ sole h.2
  pending : ∀ {t e w w'}, rt.poll t e w .pending w' → holders w' = holders w
  exit : ∀ t w, holders (rt.atExit t w) = holders w
  ambient : ∀ {w w'}, rt.ambient w w' → holders w' = holders w

variable {rt : Runtime T E R W ρ}


/-- Every iteration of every loop starts and ends without a guard. -/
def LockTable.Disciplined (tb : LockTable rt L M) : Prop :=
  ∀ t, (rt.body t).Obeys (guarding tb.access tb.sole) [] fun _ held => held = []

def LockTable.discipline (tb : LockTable rt L M) (h : tb.Disciplined) :
    Discipline rt (List (L × M)) where
  toProtocol := guarding tb.access tb.sole
  off        := []
  gone       := []
  enter      := fun _ => []
  leave      := fun _ _ held => held = []
  body_obeys := h

/-! ## Section 2: The table in every reachable state -/

/-- The guards in the table are those that the tasks have, and a sole guard
    of a lock is the only one. -/
structure LockTable.Sound (tb : LockTable rt L M) (g : T → List (L × M)) (w : W) : Prop where
  tally : ∀ t l m, (t, m) ∈ tb.holders w l ↔ (l, m) ∈ g t
  alone : ∀ l t m u m', (t, m) ∈ tb.holders w l → tb.sole m → (u, m') ∈ tb.holders w l →
    u = t ∧ m' = m

variable {tb : LockTable rt L M}

/-- Setting the list of a task that has no guard to the empty list. -/
theorem LockTable.Sound.reset {g : T → List (L × M)} {w : W} (h : tb.Sound g w) {t : T}
    (ht : g t = []) : tb.Sound (Function.update g t []) w := by
  rwa [← ht, Function.update_eq_self]

theorem LockTable.Sound.same {g : T → List (L × M)} {w w' : W} (h : tb.Sound g w)
    (hw : tb.holders w' = tb.holders w) : tb.Sound g w' := by
  constructor
  · intro t l m
    rw [hw]
    exact h.tally t l m
  · intro l t m u m'
    rw [hw]
    exact h.alone l t m u m'

/-- A new guard is compatible with those that exist. -/
theorem LockTable.Sound.take {g : T → List (L × M)} {w w' : W} (h : tb.Sound g w) {t : T} {l : L}
    {m : M} (hw : tb.holders w' = (Access.take l m).after t (tb.holders w))
    (hsole : tb.sole m → tb.holders w l = []) (hshared : ∀ x ∈ tb.holders w l, ¬ tb.sole x.2) :
    tb.Sound (Function.update g t ((l, m) :: g t)) w' := by
  have hself : tb.holders w' l = (t, m) :: tb.holders w l := by
    rw [hw]
    exact Function.update_self ..
  have hother : ∀ l', l' ≠ l → tb.holders w' l' = tb.holders w l' := by
    intro l' hl
    rw [hw]
    exact Function.update_of_ne hl ..
  constructor
  · intro u l' m'
    have hold := h.tally u l' m'
    -- the tally moves only for the lock and the task at hand
    by_cases hl : l' = l <;> by_cases hu : u = t
    · subst hl hu
      rw [hself, Function.update_self]
      simp [hold]
    · subst hl
      rw [hself, Function.update_of_ne hu]
      simp [hold, hu]
    · subst hu
      rw [hother l' hl, Function.update_self]
      simp [hold, hl]
    · rw [hother l' hl, Function.update_of_ne hu]
      exact hold
  · -- a second guard of the lock means that neither of the two is exclusive
    intro l' u n v n' hu hn hv
    by_cases hl : l' = l
    · subst hl
      rw [hself] at hu hv
      rcases List.mem_cons.mp hu with hnew | hold
      · cases hnew
        rw [hsole hn] at hv
        simpa using hv
      · exact absurd hn (hshared _ hold)
    · rw [hother l' hl] at hu hv
      exact h.alone l' u n v n' hu hn hv

/-- Dropping removes all guards of the task. -/
theorem LockTable.Sound.drop {g : T → List (L × M)} {w w' : W} (h : tb.Sound g w) {t : T} {l : L}
    (hw : tb.holders w' = (Access.drop (M := M) l).after t (tb.holders w)) :
    tb.Sound (Function.update g t ((g t).filter (·.1 ≠ l))) w' := by
  have hself : tb.holders w' l = (tb.holders w l).filter (·.1 ≠ t) := by
    rw [hw]
    exact Function.update_self ..
  have hother : ∀ l', l' ≠ l → tb.holders w' l' = tb.holders w l' := by
    intro l' hl
    rw [hw]
    exact Function.update_of_ne hl ..
  have hsub : ∀ l' x, x ∈ tb.holders w' l' → x ∈ tb.holders w l' := by
    intro l' x hx
    by_cases hl : l' = l
    · subst hl
      rw [hself] at hx
      exact (List.mem_filter.mp hx).1
    · rwa [hother l' hl] at hx
  -- a table with fewer guards has no new conflicts
  constructor
  · intro u l' m'
    have hold := h.tally u l' m'
    by_cases hl : l' = l <;> by_cases hu : u = t
    · subst hl hu
      rw [hself, Function.update_self]
      simp
    · subst hl
      rw [hself, Function.update_of_ne hu]
      simp [hold, hu]
    · subst hu
      rw [hother l' hl, Function.update_self]
      simp [hold, hl]
    · rw [hother l' hl, Function.update_of_ne hu]
      exact hold
  · intro l' u n v n' hu hn hv
    exact h.alone l' u n v n' (hsub l' _ hu) hn (hsub l' _ hv)

/-- What a completed effect does to the table and to the list of its task. -/
theorem LockTable.Sound.ready {g : T → List (L × M)} {w w' : W} (h : tb.Sound g w) {t : T} {e : E}
    {r : R e} (hpoll : rt.poll t e w (.ready r) w') :
    tb.Sound (Function.update g t ((guarding tb.access tb.sole).next (g t) e r)) w' := by
  have hw := tb.ready hpoll
  have hnext : (guarding tb.access tb.sole).next (g t) e r = match tb.access e with
    | .take l m => (l, m) :: g t
    | .drop l => (g t).filter (·.1 ≠ l)
    | _ => g t := rfl
  rw [hnext]
  cases haccess : tb.access e with
  | take l m =>
    rw [haccess] at hw
    obtain ⟨hsole, hshared⟩ := tb.fits haccess hpoll
    exact h.take hw hsole hshared
  | drop l =>
    rw [haccess] at hw
    exact h.drop hw
  | use l | change l | none =>
    rw [haccess] at hw
    rw [Function.update_eq_self]
    exact h.same hw

theorem LockTable.keeps (tb : LockTable rt L M) (hd : tb.Disciplined) :
    (tb.discipline hd).Keeps anyStep tb.Sound where
  start := fun _ _ _ hg hoff _ => hg.reset hoff
  again := fun _ _ _ hg hleave => hg.reset hleave
  exit := fun _ w t _ hg hleave => (hg.reset hleave).same (tb.exit t w)
  pending := fun _ _ _ _ _ hg _ hpoll => hg.same (tb.pending hpoll)
  ready := fun _ _ _ _ _ _ _ hg _ _ _ _ hpoll => ⟨trivial, hg.ready hpoll⟩
  ambient := fun _ _ _ hg hw => hg.same (tb.ambient hw)

/-- A configuration that a run from a world without guards can reach. -/
def LockTable.Reached (tb : LockTable rt L M) (c : Config T E R W ρ) : Prop :=
  ∃ w tr, (∀ l, tb.holders w l = []) ∧ Run rt anyStep (Config.initial w) tr c

theorem LockTable.Reached.run {c c' : Config T E R W ρ} {tr : List (Label T R)}
    (h : tb.Reached c) (hrun : Run rt anyStep c tr c') : tb.Reached c' := by
  obtain ⟨w, tr₀, hw, h₀⟩ := h
  exact ⟨w, tr₀ ++ tr, hw, h₀.trans hrun⟩

theorem LockTable.Reached.holds {c : Config T E R W ρ} (h : tb.Reached c)
    (hd : tb.Disciplined) : ∃ g, (tb.discipline hd).Holds tb.Sound c g := by
  obtain ⟨w, tr, hw, hrun⟩ := h
  apply (tb.discipline hd).run_invariant (tb.keeps hd) hrun
  apply (tb.discipline hd).holds_initial
  constructor
  · intro t l m
    rw [hw]
    show (t, m) ∈ [] ↔ (l, m) ∈ []
    simp
  · intro l t m u m' hmem
    rw [hw] at hmem
    exact absurd hmem List.not_mem_nil

/-! ## Section 3: Exclusion -/

section reached

variable {c : Config T E R W ρ} (hc : tb.Reached c) (hd : tb.Disciplined)

include hc hd

/-- **Mutual exclusion.** Next to a sole guard there is no other. -/
theorem LockTable.Reached.alone {l : L} {t u : T} {m m' : M} (ht : (t, m) ∈ tb.holders c.world l)
    (hm : tb.sole m) (hu : (u, m') ∈ tb.holders c.world l) : u = t ∧ m' = m := by
  obtain ⟨g, hg, -⟩ := hc.holds hd
  exact hg.alone l t m u m' ht hm hu

/-- A task does not wait for itself. -/
theorem LockTable.Reached.not_waiting {t : T} {e : E} {k : R e → Prog E R (Flow ρ)} {l : L}
    {m m' : M} (ht : c.task t = .live (.eff e k)) (he : tb.access e = .take l m) :
    (t, m') ∉ tb.holders c.world l := by
  obtain ⟨g, hg, hfit⟩ := hc.holds hd
  have hobeys := hfit t
  rw [ht] at hobeys
  have hallow : (guarding tb.access tb.sole).allows (g t) e := hobeys.1
  unfold guarding at hallow
  simp only [he] at hallow
  rw [hg.tally]
  exact hallow m'

/-- A task that has finished has left no guard. -/
theorem LockTable.Reached.exited {t : T} {x : ρ} (ht : c.task t = .exited x) {l : L} {m : M} :
    (t, m) ∉ tb.holders c.world l := by
  obtain ⟨g, hg, hfit⟩ := hc.holds hd
  have hgone := hfit t
  rw [ht] at hgone
  rw [hg.tally, show g t = [] from hgone]
  exact List.not_mem_nil

/-- Neither has one at the end of an iteration of its loop. -/
theorem LockTable.Reached.resting {t : T} {x : Flow ρ} (ht : c.task t = .live (.ret x)) {l : L}
    {m : M} : (t, m) ∉ tb.holders c.world l := by
  obtain ⟨g, hg, hfit⟩ := hc.holds hd
  have hleave := hfit t
  rw [ht] at hleave
  rw [hg.tally, show g t = [] from hleave]
  exact List.not_mem_nil

/-- Data behind a lock is used under a guard of the task. -/
theorem LockTable.Reached.uses {c' : Config T E R W ρ} {t : T} {e : E} {r : R e} {l : L}
    (hstep : Step rt c (some (t, ⟨e, r⟩)) c')
    (he : tb.access e = .use l ∨ tb.access e = .change l) :
    ∃ m, (t, m) ∈ tb.holders c.world l ∧ (tb.access e = .change l → tb.sole m) := by
  obtain ⟨g, hg, hfit⟩ := hc.holds hd
  cases hstep with
  | ready t e k r w ht hpoll =>
    have hobeys := hfit t
    rw [ht] at hobeys
    have hallow : (guarding tb.access tb.sole).allows (g t) e := hobeys.1
    unfold guarding at hallow
    rcases he with he | he
    · simp only [he] at hallow
      obtain ⟨m, hm⟩ := hallow
      refine ⟨m, (hg.tally t l m).mpr hm, ?_⟩
      simp [he]
    · simp only [he] at hallow
      obtain ⟨m, hm, hsole⟩ := hallow
      exact ⟨m, (hg.tally t l m).mpr hm, fun _ => hsole⟩

/-- **Other tasks keep out of a scope.** While a task holds a lock, a step of
    another one does not change the data, and does not even look at it if the
    guard is a sole one. -/
theorem LockTable.Reached.others {c' : Config T E R W ρ} {t u : T} {e : E} {r : R e} {l : L}
    {m : M} (ht : (t, m) ∈ tb.holders c.world l) (hu : u ≠ t)
    (hstep : Step rt c (some (u, ⟨e, r⟩)) c') :
    tb.access e ≠ .change l ∧ (tb.sole m → tb.access e ≠ .use l) := by
  constructor
  · intro he
    obtain ⟨m', hm', hsole⟩ := hc.uses hd hstep (.inr he)
    exact hu (hc.alone hd hm' (hsole he) ht).1.symm
  · intro hm he
    obtain ⟨m', hm', -⟩ := hc.uses hd hstep (.inl he)
    exact hu (hc.alone hd ht hm hm').1

end reached

/-- A guard lasts until its task drops it. -/
theorem LockTable.still_held (tb : LockTable rt L M) {c c' : Config T E R W ρ}
    {o : Option (Label T R)} (hstep : Step rt c o c') {t : T} {l : L} {m : M}
    (ht : (t, m) ∈ tb.holders c.world l)
    (hkeep : ∀ ev, o = some (t, ev) → tb.access ev.1 ≠ .drop l) :
    (t, m) ∈ tb.holders c'.world l := by
  -- only a completed effect changes the table, and of these only a drop by `t` itself
  -- would take its guard away
  cases hstep with
  | start u _ _ => exact ht
  | again u _ => exact ht
  | pending u e k w _ hpoll =>
    show (t, m) ∈ tb.holders w l
    rwa [tb.pending hpoll]
  | exit u x _ =>
    show (t, m) ∈ tb.holders (rt.atExit u c.world) l
    rwa [tb.exit]
  | ambient w hw =>
    show (t, m) ∈ tb.holders w l
    rwa [tb.ambient hw]
  | ready u e k r w _ hpoll =>
    show (t, m) ∈ tb.holders w l
    rw [tb.ready hpoll]
    cases haccess : tb.access e with
    | take l' m' =>
      by_cases hl : l = l'
      · subst hl
        show (t, m) ∈ Function.update (tb.holders c.world) l _ l
        rw [Function.update_self]
        exact List.mem_cons_of_mem _ ht
      · show (t, m) ∈ Function.update (tb.holders c.world) l' _ l
        rwa [Function.update_of_ne hl]
    | drop l' =>
      show (t, m) ∈ Function.update (tb.holders c.world) l' _ l
      by_cases hl : l = l'
      · subst hl
        have hu : t ≠ u := by
          intro htu
          subst htu
          exact hkeep ⟨e, r⟩ rfl haccess
        rw [Function.update_self]
        simp [ht, hu]
      · rwa [Function.update_of_ne hl]
    | use l' | change l' | none => exact ht

/-- **A scope of a run.** From a state in which task `t` has a guard of `l`,
    along a run in which it does not drop it: it still has the guard, and at
    every step in between it had it. -/
theorem LockTable.scope_run (tb : LockTable rt L M) {c c' : Config T E R W ρ}
    {tr : List (Label T R)} (hrun : Run rt anyStep c tr c') {t : T} {l : L} {m : M}
    (ht : (t, m) ∈ tb.holders c.world l)
    (hkeep : ∀ ev ∈ eventsOf t tr, tb.access ev.1 ≠ .drop l) :
    (t, m) ∈ tb.holders c'.world l := by
  induction hrun with
  | refl => exact ht
  | silent _ hstep ih => exact tb.still_held hstep (ih hkeep) (fun ev hev => by cases hev)
  | act lb _ _ hstep ih =>
    rw [eventsOf_append] at hkeep
    have hbefore := ih fun ev hev => hkeep ev (List.mem_append_left _ hev)
    apply tb.still_held hstep hbefore
    intro ev hev
    obtain rfl := Option.some_inj.mp hev
    apply hkeep
    apply List.mem_append_right
    simp [eventsOf]

end Async
