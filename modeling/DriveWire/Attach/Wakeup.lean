import DriveWire.Server.Script
import DriveWire.Vserial.Commands

/-! # Wake-ups of Attached Readers

    The outbound task of an attach session drains its channel, and waits for
    a wake-up when there was nothing to drain.  A byte is stranded when it is
    in the inbox of a channel whose outbound tasks all wait, with no wake-up
    on its way.

    `push_vserial` signals after its append, `handle_serwritem` does not.
    Section 4 has the runs in which no byte is stranded: those in which
    SERWRITEM never relies on the missing signal. -/

namespace DriveWire

open Async Server

variable {D F N : Type}

/-! ## Section 1: Notify -/

/-- No task is registered or woken twice. -/
def Notify.Distinct (n : Notify) : Prop := (n.woken ++ n.waiters).Nodup

/-- The task has a `notified` future that was polled. -/
def Notify.Knows (n : Notify) (t : Tid) : Prop := t ∈ n.woken ∨ t ∈ n.waiters

namespace Notify

theorem distinct_notifyOne {n : Notify} (h : n.Distinct) : n.notifyOne.Distinct := by
  unfold notifyOne
  split
  · exact h
  · rename_i t rest hwaiters
    unfold Distinct at h ⊢
    rw [hwaiters] at h
    exact (List.perm_middle.nodup_iff).mp h

theorem knows_notifyOne {n : Notify} (t : Tid) : n.notifyOne.Knows t ↔ n.Knows t := by
  unfold notifyOne Knows
  split
  · rfl
  · rename_i u rest hwaiters
    rw [hwaiters, List.mem_cons, List.mem_cons]
    tauto

/-- After a signal there is a permit or a woken task. -/
theorem notifyOne_signalled (n : Notify) :
    n.notifyOne.permit = true ∨ n.notifyOne.woken ≠ [] := by
  unfold notifyOne
  split
  · exact .inl rfl
  · exact .inr (List.cons_ne_nil _ _)

theorem distinct_poll {n : Notify} (h : n.Distinct) (t : Tid) : (n.poll t).2.Distinct := by
  unfold poll
  split
  · exact h.sublist (List.Sublist.append List.erase_sublist (List.Sublist.refl _))
  split
  · exact h
  split
  · exact h
  · rename_i hwoken hwaiters _
    unfold Distinct at h ⊢
    rw [← List.append_assoc]
    refine h.append (List.nodup_singleton t) ?_
    rw [List.disjoint_singleton, List.mem_append]
    tauto

theorem knows_poll {n : Notify} {t u : Tid} (h : (n.poll t).2.Knows u) : n.Knows u ∨ u = t := by
  unfold poll Knows at *
  split at h
  · exact .inl (h.imp_left List.mem_of_mem_erase)
  split at h
  · exact .inl h
  split at h
  · exact .inl h
  · rw [List.mem_append, List.mem_singleton] at h
    tauto

theorem poll_pending {n : Notify} {t : Tid} (hpending : (n.poll t).1 = .pending) :
    (n.poll t).2.permit = n.permit ∧ (n.poll t).2.woken = n.woken := by
  unfold poll at *
  split at hpending
  · cases hpending
  · rename_i hwoken
    rw [if_neg hwoken]
    split
    · exact ⟨rfl, rfl⟩
    · split <;> simp_all

/-- A completed `notified` future leaves nothing behind. -/
theorem poll_ready {n : Notify} (h : n.Distinct) {t : Tid} (hready : (n.poll t).1 = .ready ()) :
    ¬ (n.poll t).2.Knows t := by
  unfold poll Knows at *
  split at hready
  · rename_i hwoken
    rw [if_pos hwoken]
    have hparts := List.nodup_append.mp h
    rintro (herase | hwaits)
    · exact hparts.1.not_mem_erase herase
    · exact hparts.2.2 t hwoken t hwaits rfl
  · rename_i hwoken
    rw [if_neg hwoken]
    split at hready
    · cases hready
    · rename_i hwaiters
      rw [if_neg hwaiters]
      split at hready
      · rename_i hpermit
        rw [if_pos hpermit]
        tauto
      · cases hready

end Notify

/-! ## Section 2: The phases of readers and writers -/

/-- Where a task is between an append to an inbox and the drain. -/
inductive Phase where
  /-- Not running. -/
  | off     : Phase
  /-- Neither a guest nor an outbound task. -/
  | other   : Phase
  /-- A guest that owes no signal. -/
  | calm    : Phase
  /-- A guest that has appended and not signalled yet. -/
  | owes    : Channel → Phase
  /-- An outbound task before its drain. -/
  | awake   : Channel → Phase
  /-- An outbound task that has drained nothing. -/
  | idle    : Channel → Phase
  /-- An outbound task with drained bytes. -/
  | writing : Channel → Phase
  /-- An outbound task whose write has failed. -/
  | closed  : Phase

/-- The phase in which a task starts an iteration. -/
def Phase.enter : Tid → Phase
  | .guest _ => .calm
  | t => match t.reads with
    | some c => .awake c
    | none => .other

/-- The phases of each kind of task. -/
def Phase.Suits (t : Tid) : Phase → Prop
  | .off | .closed => True
  | .other => Phase.enter t = .other
  | .calm | .owes _ => Phase.enter t = .calm
  | .awake c | .idle c | .writing c => Phase.enter t = .awake c

/-- Effects that neither append to an inbox nor signal nor wait. -/
def Unrelated : Eff D → Prop
  | .notifyOne _ | .notified _ => False
  | .op (.inboxPushBack _ _) | .op (.inboxExtend _ _) => False
  | _ => True

theorem HostEff.unrelated {e : Eff D} (h : HostEff e) : Unrelated e := by
  cases e with
  | op o => cases o <;> trivial
  | notifyOne c => cases h
  | notified c => cases h
  | _ => trivial

/-- What the result of a write makes of an outbound task. -/
def Phase.afterWrite (c : Channel) : Except IoError Unit → Phase
  | .ok () => .awake c
  | .error _ => .closed

/-- How the effects of a task move its phase. -/
def wakeups : Protocol (Eff D) Eff.Res Phase where
  allows := fun s e =>
    match s, e with
    | .off, _ | .closed, _ => False
    | .other, e => Unrelated e
    | .calm, .notifyOne _ | .calm, .notified _ => False
    | .calm, _ => True
    | .owes _, .unlock _ => True
    | .owes c, .notifyOne c' => c' = c
    | .awake _, .lock _ _ | .awake _, .unlock _ => True
    | .awake c, .op (.inboxDrain c') => c' = c
    | .idle _, .unlock _ => True
    | .idle c, .notified c' => c' = c
    | .writing _, .unlock _ | .writing _, .io (.writeAll _) => True
    | _, _ => False
  admits := fun _ _ _ => True
  next := fun s e =>
    match s, e with
    | .calm, .op (.inboxPushBack c _) => fun _ => .owes c
    | .owes _, .notifyOne _ => fun _ => .calm
    | .awake c, .op (.inboxDrain _) => fun bytes => if bytes = [] then .idle c else .writing c
    | .idle c, .notified _ => fun _ => .awake c
    | .writing c, .io (.writeAll _) => Phase.afterWrite c
    | s, _ => fun _ => s

/-- How an iteration ends. -/
def Phase.Leaves (t : Tid) : Flow Exit → Phase → Prop
  | .again, s => s = Phase.enter t
  | .done _, s => s = .calm ∨ s = .other ∨ s = .closed

/-! ## Section 3: Every loop body -/

theorem guest_wakeups (n : Nat) :
    GuestRules (D := D) wakeups (fun _ s => s = .calm) (Phase.Leaves (.guest n)) where
  aside := fun rcv s e hs he => by
    subst hs
    cases e with
    | op o => cases o <;> first | exact ⟨trivial, fun _ _ => rfl⟩ | cases he
    | notifyOne c => cases he
    | notified c => cases he
    | _ => exact ⟨trivial, fun _ _ => rfl⟩
  read := fun rcv s k hs => by
    subst hs
    trivial
  read_ok := fun rcv s k v hs _ => by
    subst hs
    rfl
  read_error := fun rcv s k e x hs _ => by
    subst hs
    exact .inl rfl
  write := fun b payload s bs hs _ => by
    subst hs
    trivial
  write_ok := fun b payload s bs hs _ _ => by
    subst hs
    rfl
  write_error := fun b payload s bs e x hs _ _ => by
    subst hs
    exact .inl rfl
  finish := fun b payload s hs _ => hs
  -- SERWRITE and FASTWRITE: the append makes the session owe a signal, and it pays it
  push := fun b payload s c x hs _ => by
    subst hs
    exact ⟨trivial, fun _ _ => ⟨trivial, fun _ _ => ⟨trivial, fun _ _ => ⟨rfl, fun _ _ => rfl⟩⟩⟩⟩
  -- SERWRITEM appends and owes nothing
  extend := fun b payload s c bs hs _ => by
    subst hs
    exact ⟨trivial, fun _ _ => ⟨trivial, fun _ _ => ⟨trivial, fun _ _ => rfl⟩⟩⟩
  scan := fun b s hs _ => by
    subst hs
    rw [handleSerread_eq]
    refine ⟨trivial, fun _ _ => ⟨trivial, fun _ _ =>
      ⟨trivial, fun r _ => ⟨trivial, fun _ _ => ?_⟩⟩⟩⟩
    cases r with
    | ok u => exact rfl
    | error e => exact .inl rfl
  pop := fun b payload s c n hs _ => by
    subst hs
    refine ⟨trivial, fun _ _ => ⟨trivial, fun _ _ =>
      ⟨trivial, fun _ _ => ⟨trivial, fun r _ => ?_⟩⟩⟩⟩
    cases r with
    | ok u => exact rfl
    | error e => exact .inl rfl

/-- A drain that finds nothing is followed by `notified`, any other one by a
    write. -/
theorem outboundOnce_wakeups (n : Nat) (channel : UInt8) (h : channel.toNat < vserialChannels) :
    (outboundOnce channel : Code D _).Obeys wakeups (Phase.enter (.attachOut n channel))
      (Phase.Leaves (.attachOut n channel)) := by
  have henter : Phase.enter (.attachOut n channel) = .awake ⟨channel.toNat, h⟩ := by
    simp [Phase.enter, Tid.reads, h]
  rw [henter, outboundOnce, drainVserial, dif_pos h, guarded_eq]
  refine ⟨trivial, fun _ _ => ⟨rfl, fun bytes _ => ?_⟩⟩
  cases bytes with
  | nil =>
    refine ⟨trivial, fun _ _ => ?_⟩
    simp only [waitVserialInbox, dif_pos h]
    exact ⟨rfl, fun _ _ => henter.symm⟩
  | cons x bytes =>
    refine ⟨trivial, fun _ _ => ⟨trivial, fun r _ => ?_⟩⟩
    cases r with
    | ok u => exact henter.symm
    | error e => exact .inr (.inr rfl)

/-- Code that only does what is left to hosts stays in phase `other`. -/
theorem host_wakeups {t : Tid} {c : Code D (Flow Exit)} (hc : c.Only HostEff)
    (ht : Phase.enter t = .other) : c.Obeys wakeups (Phase.enter t) (Phase.Leaves t) := by
  rw [ht]
  refine (hc.obeys fun e he => ⟨he.unrelated, fun _ _ => rfl⟩).mono fun flow s hs => ?_
  subst hs
  cases flow with
  | again => exact ht.symm
  | done x => exact .inr (.inl rfl)

theorem attachSession_wakeups (n : Nat) :
    (attachSession (D := D) n).Obeys wakeups (Phase.enter (.attach n))
      (Phase.Leaves (.attach n)) := by
  refine ⟨trivial, fun r _ => ?_⟩
  cases r with
  | error e => exact .inr (.inl rfl)
  | ok chByte =>
    exact ⟨trivial, fun _ _ => ⟨trivial, fun _ _ => ⟨trivial, fun _ _ => .inr (.inl rfl)⟩⟩⟩

theorem body_wakeups [VDisk D] [UnicodeTables] (t : Tid) :
    (body (D := D) t).Obeys wakeups (Phase.enter t) (Phase.Leaves t) := by
  cases t with
  | guest n => exact (guest_wakeups n).guestOnce_obeys rfl
  | attach n => exact attachSession_wakeups n
  | attachIn n channel => exact host_wakeups (inboundOnce_host channel) rfl
  | attachOut n channel =>
    by_cases h : channel.toNat < vserialChannels
    · exact outboundOnce_wakeups n channel h
    · exact host_wakeups (outboundOnce_host channel h) (by simp [Phase.enter, Tid.reads, h])
  | control n => exact host_wakeups controlOnce_host rfl
  | api n => exact host_wakeups apiCall_host rfl

/-! ## Section 4: The invariant -/

/-- Somebody other than `t` is going to drain channel `c` or to signal. -/
def Pending (t : Tid) (g : Tid → Phase) (w : World D F N) (c : Channel) : Prop :=
  (w.notify c).permit = true ∨ (w.notify c).woken ≠ [] ∨
    ∃ u, u ≠ t ∧ (g u = .awake c ∨ g u = .writing c ∨ g u = .owes c)

/-- The same, with nobody left out. -/
def Attended (g : Tid → Phase) (w : World D F N) (c : Channel) : Prop :=
  (w.notify c).permit = true ∨ (w.notify c).woken ≠ [] ∨
    ∃ u, g u = .awake c ∨ g u = .writing c ∨ g u = .owes c

/-- What holds of phases and world in good runs. -/
structure Alert (g : Tid → Phase) (w : World D F N) : Prop where
  suits : ∀ t, (g t).Suits t
  distinct : ∀ c, (w.notify c).Distinct
  /-- Only idle tasks have polled their futures. -/
  known : ∀ c t, (w.notify c).Knows t → g t = .idle c
  /-- Bytes do not lie before idle readers. -/
  attended : ∀ c t, w.server.vserialInbox c ≠ [] → g t = .idle c → Attended g w c

/-- What task `t` leaves to the others, and what it does itself, attends. -/
theorem Pending.attended {t : Tid} {g : Tid → Phase} {w w' : World D F N} {c : Channel}
    (h : Pending t g w c) (s : Phase) (hn : w'.notify c = w.notify c) :
    Attended (Function.update g t s) w' c := by
  rcases h with h | h | ⟨u, hu, hg⟩
  · exact .inl (hn ▸ h)
  · exact .inr (.inl (hn ▸ h))
  · exact .inr (.inr ⟨u, by rwa [Function.update_of_ne hu]⟩)

/-- A task in another phase is not one of those that attend. -/
theorem Attended.pending {t : Tid} {g : Tid → Phase} {w : World D F N} {c : Channel}
    (h : Attended g w c) (hawake : g t ≠ .awake c) (hwriting : g t ≠ .writing c)
    (howes : g t ≠ .owes c) : Pending t g w c := by
  rcases h with h | h | ⟨u, hg⟩
  · exact .inl h
  · exact .inr (.inl h)
  · refine .inr (.inr ⟨u, ?_, hg⟩)
    rintro rfl
    tauto

/-- **Step rule.** Task `t` moves to phase `s`, and the world to `w'`. -/
theorem Alert.move {g : Tid → Phase} {w w' : World D F N} (h : Alert g w) {t : Tid} {s : Phase}
    (hsuits : s.Suits t) (hdistinct : ∀ c, (w'.notify c).Distinct)
    (hknown : ∀ c u, (w'.notify c).Knows u → u ≠ t → (w.notify c).Knows u)
    (hself : ∀ c, (w'.notify c).Knows t → s = .idle c)
    (hatt : ∀ c u, w'.server.vserialInbox c ≠ [] → Function.update g t s u = .idle c →
      Attended (Function.update g t s) w' c) :
    Alert (Function.update g t s) w' where
  suits := fun u => by
    by_cases hu : u = t
    · subst hu
      rwa [Function.update_self]
    · rw [Function.update_of_ne hu]
      exact h.suits u
  distinct := hdistinct
  known := fun c u hk => by
    by_cases hu : u = t
    · subst hu
      rw [Function.update_self]
      exact hself c hk
    · rw [Function.update_of_ne hu]
      exact h.known c u (hknown c u hk hu)
  attended := hatt

/-- Steps that touch no wake-up, append nothing and leave the phase alone. -/
theorem Alert.frame {g : Tid → Phase} {w w' : World D F N} (h : Alert g w)
    (hn : w'.notify = w.notify)
    (hi : ∀ c, w'.server.vserialInbox c ≠ [] → w.server.vserialInbox c ≠ []) : Alert g w' where
  suits := h.suits
  distinct := fun c => hn ▸ h.distinct c
  known := fun c t hk => h.known c t (hn ▸ hk)
  attended := fun c t hne ht => by
    have := h.attended c t (hi c hne) ht
    unfold Attended at this ⊢
    rwa [hn]

/-- A step of task `t` that changes its phase only as far as channel `c` is
    concerned: the other channels are attended as before. -/
theorem Alert.others {g : Tid → Phase} {w w' : World D F N} (h : Alert g w) {t : Tid} {s : Phase}
    {c' : Channel} (hn : w'.notify c' = w.notify c')
    (hi : w'.server.vserialInbox c' = w.server.vserialInbox c')
    (hbefore : g t ≠ .awake c' ∧ g t ≠ .writing c' ∧ g t ≠ .owes c') (hs : s ≠ .idle c')
    {u : Tid} (hne : w'.server.vserialInbox c' ≠ [])
    (hu : Function.update g t s u = .idle c') : Attended (Function.update g t s) w' c' := by
  have hut : u ≠ t := by
    rintro rfl
    rw [Function.update_self] at hu
    exact hs hu
  rw [Function.update_of_ne hut] at hu
  have hatt := h.attended c' u (hi ▸ hne) hu
  exact (hatt.pending hbefore.1 hbefore.2.1 hbefore.2.2).attended s hn

theorem unrelated_poll {env : Env D F N} {t : Tid} {e : Eff D} {w w' : World D F N} {r : e.Res}
    (he : Unrelated e) (hpoll : poll env t e w (.ready r) w') :
    w'.notify = w.notify ∧
      ∀ c, w'.server.vserialInbox c ≠ [] → w.server.vserialInbox c ≠ [] := by
  have hserver := poll_server hpoll
  cases e with
  | notifyOne c => cases he
  | notified c => cases he
  | op o =>
    obtain ⟨_, rfl⟩ := hpoll
    refine ⟨rfl, fun c hc => ?_⟩
    cases o with
    | inboxPushBack c' b => cases he
    | inboxExtend c' bs => cases he
    | inboxDrain c' =>
      have hc' : Function.update w.server.vserialInbox c' [] c ≠ [] := hc
      by_cases hcc : c = c'
      · subst hcc
        rw [Function.update_self] at hc'
        exact absurd rfl hc'
      · rwa [Function.update_of_ne hcc] at hc'
    | _ => exact hc
  | _ =>
    obtain ⟨hserver, -, hnotify, -⟩ := poll_ready hpoll
    refine ⟨hnotify, fun c hc => ?_⟩
    rwa [hserver] at hc

variable {g : Tid → Phase}

theorem Alert.frame_self {w w' : World D F N} {t : Tid} {s : Phase} (hg : Alert g w)
    (hs : g t = s) (hn : w'.notify = w.notify)
    (hi : ∀ c, w'.server.vserialInbox c ≠ [] → w.server.vserialInbox c ≠ []) :
    Alert (Function.update g t s) w' := by
  rw [← hs, Function.update_eq_self]
  exact hg.frame hn hi

/-- A phase without obligations gives way to one that is not idle. -/
theorem Alert.shift {w w' : World D F N} {t : Tid} {s : Phase} (hg : Alert g w)
    (hbefore : ∀ c, g t ≠ .awake c ∧ g t ≠ .writing c ∧ g t ≠ .owes c ∧ g t ≠ .idle c)
    (hs : ∀ c, s ≠ .idle c) (hsuits : s.Suits t) (hn : w'.notify = w.notify)
    (hserver : w'.server = w.server) : Alert (Function.update g t s) w' := by
  refine hg.move hsuits (fun c => hn ▸ hg.distinct c) (fun c u hk _ => hn ▸ hk) (fun c hk => ?_)
    fun c u hne hu => ?_
  · exact absurd (hg.known c t (hn ▸ hk)) (hbefore c).2.2.2
  · have hbefore' := hbefore c
    exact hg.others (congrFun hn c) (by rw [hserver]) ⟨hbefore'.1, hbefore'.2.1, hbefore'.2.2.1⟩
      (hs c) hne hu

/-- A guest's append to channel `c`, after which it owes a signal. -/
theorem alert_push {w : World D F N} {t : Tid} {c : Channel} {b : UInt8} (hg : Alert g w)
    (ht : g t = .calm) :
    Alert (Function.update g t (.owes c))
      { w with server := ((Op.inboxPushBack c b).run w.server).2 } := by
  have hsuits := hg.suits t
  rw [ht] at hsuits
  refine hg.move hsuits hg.distinct (fun _ _ hk _ => hk) (fun c' hk => ?_) fun c' u hne hu => ?_
  · have := hg.known c' t hk
    rw [ht] at this
    cases this
  · by_cases hc : c' = c
    · subst hc
      exact .inr (.inr ⟨t, .inr (.inr (Function.update_self ..))⟩)
    · refine hg.others rfl (Function.update_of_ne hc _ _) ?_ nofun hne hu
      rw [ht]
      exact ⟨nofun, nofun, nofun⟩

/-- SERWRITEM's append to channel `c`, which nothing follows. -/
theorem alert_extend {w : World D F N} {t : Tid} {c : Channel} {bs : List UInt8} (hg : Alert g w)
    (ht : g t = .calm) (hserved : bs ≠ [] → ∀ v, g v = .idle c → Pending t g w c) :
    Alert (Function.update g t .calm)
      { w with server := ((Op.inboxExtend c bs).run w.server).2 } := by
  rw [← ht, Function.update_eq_self]
  refine ⟨hg.suits, hg.distinct, hg.known, fun c' v hne hv => ?_⟩
  by_cases hc : c' = c
  · subst hc
    by_cases hbs : bs = []
    · have hsame : ((Op.inboxExtend c' bs).run w.server).2.vserialInbox c' =
          w.server.vserialInbox c' := by
        rw [hbs]
        exact (Function.update_self ..).trans (List.append_nil _)
      exact hg.attended c' v (hsame ▸ hne) hv
    · have hpending : Attended (Function.update g t (g t)) w c' :=
        (hserved hbs v hv).attended (g t) rfl
      rwa [Function.update_eq_self] at hpending
  · have hsame : ((Op.inboxExtend c bs).run w.server).2.vserialInbox c' =
        w.server.vserialInbox c' := Function.update_of_ne hc _ _
    exact hg.attended c' v (hsame ▸ hne) hv

/-- The drain of channel `c` by one of its readers. -/
theorem alert_drain {w : World D F N} {t : Tid} {c : Channel} {s : Phase} (hg : Alert g w)
    (ht : g t = .awake c) (hs : s = .idle c ∨ s = .writing c) :
    Alert (Function.update g t s) { w with server := ((Op.inboxDrain c).run w.server).2 } := by
  have henter := hg.suits t
  rw [ht] at henter
  have hsuits : s.Suits t := by
    rcases hs with rfl | rfl <;> exact henter
  refine hg.move hsuits hg.distinct (fun _ _ hk _ => hk) (fun c' hk => ?_) fun c' u hne hu => ?_
  · have := hg.known c' t hk
    rw [ht] at this
    cases this
  · have hc : c' ≠ c := by
      rintro rfl
      exact hne (Function.update_self ..)
    refine hg.others rfl (Function.update_of_ne hc _ _) ?_ ?_ hne hu
    · rw [ht]
      exact ⟨fun h => hc (Phase.awake.inj h).symm, nofun, nofun⟩
    · rcases hs with rfl | rfl
      · exact fun h => hc (Phase.idle.inj h).symm
      · exact nofun

/-- The world after a change of one channel's `Notify`. -/
def World.setNotify (w : World D F N) (c : Channel) (n : Notify) : World D F N :=
  { w with notify := Function.update w.notify c n }

@[simp] theorem World.setNotify_self (w : World D F N) (c : Channel) (n : Notify) :
    (w.setNotify c n).notify c = n := Function.update_self ..

theorem World.setNotify_ne (w : World D F N) {c c' : Channel} (n : Notify) (h : c' ≠ c) :
    (w.setNotify c n).notify c' = w.notify c' := Function.update_of_ne h _ _

/-- The signal after an append. -/
theorem alert_notifyOne {w : World D F N} {t : Tid} {c : Channel} (hg : Alert g w)
    (ht : g t = .owes c) :
    Alert (Function.update g t .calm) (w.setNotify c (w.notify c).notifyOne) := by
  have hsuits := hg.suits t
  rw [ht] at hsuits
  have hknows : ∀ c' u, ((w.setNotify c (w.notify c).notifyOne).notify c').Knows u →
      (w.notify c').Knows u := by
    intro c' u hk
    by_cases hc : c' = c
    · rw [hc, World.setNotify_self] at hk
      rw [hc]
      exact (Notify.knows_notifyOne u).mp hk
    · rwa [World.setNotify_ne _ _ hc] at hk
  refine hg.move hsuits (fun c' => ?_) (fun c' u hk _ => hknows c' u hk) (fun c' hk => ?_)
    fun c' u hne hu => ?_
  · by_cases hc : c' = c
    · rw [hc, World.setNotify_self]
      exact Notify.distinct_notifyOne (hg.distinct c)
    · rw [World.setNotify_ne _ _ hc]
      exact hg.distinct c'
  · have := hg.known c' t (hknows c' t hk)
    rw [ht] at this
    cases this
  · by_cases hc : c' = c
    · -- the signal is stored, or it has woken a reader
      have hsignalled := (w.notify c).notifyOne_signalled
      rw [Attended, hc, World.setNotify_self]
      exact hsignalled.imp_right .inl
    · refine hg.others (World.setNotify_ne _ _ hc) rfl ?_ nofun hne hu
      rw [ht]
      exact ⟨nofun, nofun, fun h => hc (Phase.owes.inj h).symm⟩

/-- The end of a wait. -/
theorem alert_notified {w : World D F N} {t : Tid} {c : Channel} (hg : Alert g w)
    (ht : g t = .idle c) (hready : ((w.notify c).poll t).1 = .ready ()) :
    Alert (Function.update g t (.awake c)) (w.setNotify c ((w.notify c).poll t).2) := by
  have hsuits := hg.suits t
  rw [ht] at hsuits
  refine hg.move hsuits (fun c' => ?_) (fun c' u hk hu => ?_) (fun c' hk => ?_)
    fun c' u hne hu => ?_
  · by_cases hc : c' = c
    · rw [hc, World.setNotify_self]
      exact Notify.distinct_poll (hg.distinct c) t
    · rw [World.setNotify_ne _ _ hc]
      exact hg.distinct c'
  · by_cases hc : c' = c
    · rw [hc, World.setNotify_self] at hk
      rw [hc]
      exact (Notify.knows_poll hk).resolve_right hu
    · rwa [World.setNotify_ne _ _ hc] at hk
  · by_cases hc : c' = c
    · rw [hc, World.setNotify_self] at hk
      exact absurd hk (Notify.poll_ready (hg.distinct c) hready)
    · rw [World.setNotify_ne _ _ hc] at hk
      have := hg.known c' t hk
      rw [ht] at this
      exact absurd (Phase.idle.inj this).symm hc
  · by_cases hc : c' = c
    · -- the channel of the wait: the task itself is awake now
      subst hc
      exact .inr (.inr ⟨t, .inl (Function.update_self ..)⟩)
    · refine hg.others (World.setNotify_ne _ _ hc) rfl ?_ nofun hne hu
      rw [ht]
      exact ⟨nofun, nofun, nofun⟩

/-- A future that is polled too early registers its task. -/
theorem alert_waiting {w : World D F N} {t : Tid} {c : Channel} (hg : Alert g w)
    (ht : g t = .idle c) (hpending : ((w.notify c).poll t).1 = .pending) :
    Alert g (w.setNotify c ((w.notify c).poll t).2) := by
  refine ⟨hg.suits, fun c' => ?_, fun c' u hk => ?_, fun c' u hne hu => ?_⟩
  · by_cases hc : c' = c
    · rw [hc, World.setNotify_self]
      exact Notify.distinct_poll (hg.distinct c) t
    · rw [World.setNotify_ne _ _ hc]
      exact hg.distinct c'
  · by_cases hc : c' = c
    · rw [hc, World.setNotify_self] at hk
      rcases Notify.knows_poll hk with hk | rfl
      · exact hc ▸ hg.known c u hk
      · exact hc ▸ ht
    · rw [World.setNotify_ne _ _ hc] at hk
      exact hg.known c' u hk
  · have hatt := hg.attended c' u hne hu
    by_cases hc : c' = c
    · obtain ⟨hpermit, hwoken⟩ := Notify.poll_pending hpending
      subst hc
      unfold Attended at hatt ⊢
      rwa [World.setNotify_self, hpermit, hwoken]
    · unfold Attended at hatt ⊢
      rwa [World.setNotify_ne _ _ hc]

/-- The end of a write. -/
theorem alert_write {w : World D F N} {t : Tid} {c : Channel} {n : N} {r : Except IoError Unit}
    (hg : Alert g w) (ht : g t = .writing c)
    (hserved : ∀ e, r = .error e → w.server.vserialInbox c ≠ [] → ∀ v, g v = .idle c →
      Pending t g w c) :
    Alert (Function.update g t (Phase.afterWrite c r)) { w with net := n } := by
  have hsuits := hg.suits t
  rw [ht] at hsuits
  have hknown : ∀ c', (w.notify c').Knows t → False := by
    intro c' hk
    have := hg.known c' t hk
    rw [ht] at this
    cases this
  -- a task that has written goes on to drain; one whose client is gone leaves the bytes
  -- to somebody else
  cases r with
  | ok u =>
    refine hg.move hsuits hg.distinct (fun _ _ hk _ => hk) (fun c' hk => (hknown c' hk).elim)
      fun c' v hne hv => ?_
    by_cases hc : c' = c
    · subst hc
      exact .inr (.inr ⟨t, .inl (Function.update_self ..)⟩)
    · refine hg.others rfl rfl ?_ nofun hne hv
      rw [ht]
      exact ⟨nofun, fun h => hc (Phase.writing.inj h).symm, nofun⟩
  | error e =>
    refine hg.move trivial hg.distinct (fun _ _ hk _ => hk) (fun c' hk => (hknown c' hk).elim)
      fun c' v hne hv => ?_
    by_cases hc : c' = c
    · subst hc
      have hvt : v ≠ t := by
        rintro rfl
        rw [Function.update_self] at hv
        cases hv
      rw [Function.update_of_ne hvt] at hv
      exact (hserved e rfl hne v hv).attended .closed rfl
    · refine hg.others rfl rfl ?_ nofun hne hv
      rw [ht]
      exact ⟨nofun, fun h => hc (Phase.writing.inj h).symm, nofun⟩

/-! ## Section 5: What a suspended task is about to do -/

/-- The next await of the program is `notified` of channel `c`. -/
def Waits (c : Channel) : Code D (Flow Exit) → Prop
  | .eff (.notified c') _ => c' = c
  | .eff (.unlock _) k => Waits c (k ())
  | _ => False

/-- The program signals channel `c` before its next await. -/
def Signals (c : Channel) : Code D (Flow Exit) → Prop
  | .eff (.notifyOne c') _ => c' = c
  | .eff (.unlock _) k => Signals c (k ())
  | _ => False

theorem wakeups_unlock (s : Phase) (l : Lock) :
    (wakeups (D := D)).next s (.unlock l) () = s := by
  cases s <;> rfl

theorem Phase.enter_cases (t : Tid) :
    Phase.enter t = .calm ∨ Phase.enter t = .other ∨ ∃ c, Phase.enter t = .awake c := by
  cases t with
  | guest n => exact .inl rfl
  | attachOut n channel =>
    by_cases h : channel.toNat < vserialChannels
    · exact .inr (.inr ⟨⟨channel.toNat, h⟩, by simp [Phase.enter, Tid.reads, h]⟩)
    · exact .inr (.inl (by simp [Phase.enter, Tid.reads, h]))
  | _ => exact .inr (.inl rfl)

theorem Phase.enter_suits (t : Tid) : (Phase.enter t).Suits t ∧ ∀ c, Phase.enter t ≠ .idle c := by
  obtain h | h | ⟨c, h⟩ := Phase.enter_cases t <;> rw [h] <;> exact ⟨h, nofun⟩

theorem reads_enter {u : Tid} {c : Channel} : Phase.enter u = .awake c ↔ u.reads = some c := by
  cases u with
  | attachOut n channel =>
    by_cases h : channel.toNat < vserialChannels <;> simp [Phase.enter, Tid.reads, h]
  | _ => simp [Phase.enter, Tid.reads]

theorem waits_of_idle {t : Tid} {c : Channel} {p : Code D (Flow Exit)}
    (h : p.Obeys wakeups (.idle c) (Phase.Leaves t)) : Waits c p := by
  induction p with
  | ret a =>
    cases a with
    | again =>
      have henter : Phase.idle c = Phase.enter t := h
      obtain hcases | hcases | ⟨c', hcases⟩ := Phase.enter_cases t <;> rw [hcases] at henter <;>
        cases henter
    | done x => rcases h with h | h | h <;> cases h
  | eff e k ih =>
    cases e with
    | unlock l => exact ih () (h.2 () trivial)
    | notified c' => exact h.1
    | _ => exact h.1.elim

theorem idle_of_waits {Q : Flow Exit → Phase → Prop} {c : Channel} {p : Code D (Flow Exit)}
    {s : Phase} (hp : Waits c p) (h : p.Obeys wakeups s Q) : s = .idle c := by
  induction p with
  | ret a => cases hp
  | eff e k ih =>
    cases e with
    | unlock l =>
      have hk := h.2 () trivial
      rw [wakeups_unlock] at hk
      exact ih () hp hk
    | notified c' =>
      cases (hp : c' = c)
      cases s with
      | idle c'' => exact congrArg Phase.idle (Eq.symm h.1)
      | _ => exact h.1.elim
    | _ => cases hp

theorem owes_of_signals {Q : Flow Exit → Phase → Prop} {c : Channel} {p : Code D (Flow Exit)}
    {s : Phase} (hp : Signals c p) (h : p.Obeys wakeups s Q) : s = .owes c := by
  induction p with
  | ret a => cases hp
  | eff e k ih =>
    cases e with
    | unlock l =>
      have hk := h.2 () trivial
      rw [wakeups_unlock] at hk
      exact ih () hp hk
    | notifyOne c' =>
      cases (hp : c' = c)
      cases s with
      | owes c'' => exact congrArg Phase.owes (Eq.symm h.1)
      | _ => exact h.1.elim
    | _ => cases hp

/-! ## Section 6: Runs -/

/-- An outbound task of channel `c` that waits, and that nobody has woken. -/
def IdleReader (cfg : SysConfig D F N) (u : Tid) (c : Channel) : Prop :=
  u.reads = some c ∧ u ∉ (cfg.world.notify c).woken ∧ ∃ p, cfg.task u = .live p ∧ Waits c p

/-- An outbound task of channel `c` that will come to its drain again, unless
    its write fails. -/
def BusyReader (cfg : SysConfig D F N) (u : Tid) (c : Channel) : Prop :=
  u.reads = some c ∧ ∃ p, cfg.task u = .live p ∧ (∀ x, p ≠ .ret (.done x)) ∧
    (Waits c p → u ∈ (cfg.world.notify c).woken)

/-- If a reader of channel `c` other than `t` is idle, then a permit is stored,
    or another reader than `t` is busy, or a signal is about to be sent. -/
def Served (cfg : SysConfig D F N) (t : Tid) (c : Channel) : Prop :=
  (∃ u, u ≠ t ∧ IdleReader cfg u c) →
    (cfg.world.notify c).permit = true ∨ (∃ u, u ≠ t ∧ BusyReader cfg u c) ∨
      ∃ u p, cfg.task u = .live p ∧ Signals c p

/-- The condition on runs: a SERWRITEM that appends bytes finds its channel
    served, and so does an outbound task whose write fails on a channel with
    bytes. -/
def servedAppends (cfg : SysConfig D F N) (l : SysLabel D) : Prop :=
  match l with
  | (t, ⟨.op (.inboxExtend c bs), _⟩) => bs = [] ∨ Served cfg t c
  | (t, ⟨.io (.writeAll _), r⟩) => ∀ e c, r = .error e → t.reads = some c →
      cfg.world.server.vserialInbox c = [] ∨ Served cfg t c
  | _ => True

/-- The task is parked in `wait_vserial_inbox`. -/
def Parked (cfg : SysConfig D F N) (u : Tid) (c : Channel) : Prop :=
  u ∈ (cfg.world.notify c).waiters ∧ ∃ k, cfg.task u = .live (.eff (.notified c) k)

/-- Between two commands. -/
def AtBoundary : Task (Eff D) Eff.Res Exit → Prop
  | .live (.ret _) => True
  | .live p => p = guestOnce
  | _ => True

/-- The bytes of channel `c` are stranded. -/
structure Stranded (cfg : SysConfig D F N) (c : Channel) : Prop where
  /-- Every guest command has finished. -/
  guests : ∀ n, AtBoundary (cfg.task (.guest n))
  bytes : cfg.world.server.vserialInbox c ≠ []
  /-- There is an attach session. -/
  reader : ∃ u p, u.reads = some c ∧ cfg.task u = .live p
  parked : ∀ u p, u.reads = some c → cfg.task u = .live p → Parked cfg u c
  permit : (cfg.world.notify c).permit = false

section runs

variable [VDisk D] [UnicodeTables]

/-- The protocol of phases, for all tasks of the system. -/
def wakeupDiscipline (env : Env D F N) : Discipline (system env) Phase where
  toProtocol := wakeups
  off        := .off
  gone       := .off
  enter      := Phase.enter
  leave      := Phase.Leaves
  body_obeys := body_wakeups

variable {env : Env D F N} {cfg : SysConfig D F N}

/-- A running task has a phase. -/
theorem live_phase (hfit : ∀ u, (wakeupDiscipline env).Fits u (cfg.task u) (g u)) {u : Tid}
    {p : Code D (Flow Exit)} (hp : cfg.task u = .live p) :
    p.Obeys wakeups (g u) (Phase.Leaves u) ∧ g u ≠ .off ∧
      (g u = .closed → ∃ x, p = .ret (.done x)) := by
  have hobeys : p.Obeys wakeups (g u) (Phase.Leaves u) := by
    have := hfit u
    rwa [hp] at this
  refine ⟨hobeys, fun hoff => ?_, fun hclosed => ?_⟩
  · rw [hoff] at hobeys
    cases p with
    | ret a =>
      cases a with
      | again =>
        obtain h | h | ⟨c, h⟩ := Phase.enter_cases u <;>
          exact absurd ((hobeys : Phase.off = Phase.enter u).trans h) nofun
      | done x => rcases hobeys with h | h | h <;> cases h
    | eff e k => exact hobeys.1.elim
  · rw [hclosed] at hobeys
    cases p with
    | ret a =>
      cases a with
      | again =>
        obtain h | h | ⟨c, h⟩ := Phase.enter_cases u <;>
          exact absurd ((hobeys : Phase.closed = Phase.enter u).trans h) nofun
      | done x => exact ⟨x, rfl⟩
    | eff e k => exact hobeys.1.elim

/-- An idle phase belongs to a running reader that waits. -/
theorem idle_live (hfit : ∀ u, (wakeupDiscipline env).Fits u (cfg.task u) (g u)) {u : Tid}
    {c : Channel} (hu : g u = .idle c) : ∃ p, cfg.task u = .live p ∧ Waits c p := by
  have hfitu := hfit u
  rw [hu] at hfitu
  cases htask : cfg.task u with
  | idle => rw [htask] at hfitu; cases hfitu
  | exited x => rw [htask] at hfitu; cases hfitu
  | live p =>
    rw [htask] at hfitu
    exact ⟨p, rfl, waits_of_idle hfitu⟩

/-- The phase of a busy reader. -/
theorem busy_phase (hg : Alert g cfg.world)
    (hfit : ∀ u, (wakeupDiscipline env).Fits u (cfg.task u) (g u)) {u : Tid} {c : Channel}
    (hu : BusyReader cfg u c) :
    (cfg.world.notify c).woken ≠ [] ∨ g u = .awake c ∨ g u = .writing c := by
  obtain ⟨hreads, p, hp, hdone, hwoken⟩ := hu
  obtain ⟨_, hoff, hclosed⟩ := live_phase hfit hp
  have henter := reads_enter.mpr hreads
  have hsuits := hg.suits u
  -- of the phases of an outbound task only three are left
  cases hphase : g u with
  | off => exact absurd hphase hoff
  | closed =>
    obtain ⟨x, hx⟩ := hclosed hphase
    exact absurd hx (hdone x)
  | other => rw [hphase] at hsuits; exact absurd (henter.symm.trans hsuits) nofun
  | calm => rw [hphase] at hsuits; exact absurd (henter.symm.trans hsuits) nofun
  | owes c' => rw [hphase] at hsuits; exact absurd (henter.symm.trans hsuits) nofun
  | awake c' =>
    rw [hphase] at hsuits
    cases henter.symm.trans hsuits
    exact .inr (.inl rfl)
  | writing c' =>
    rw [hphase] at hsuits
    cases henter.symm.trans hsuits
    exact .inr (.inr rfl)
  | idle c' =>
    rw [hphase] at hsuits
    cases henter.symm.trans hsuits
    obtain ⟨p', hp', hwaits⟩ := idle_live hfit hphase
    cases hp.symm.trans hp'
    exact .inl (List.ne_nil_of_mem (hwoken hwaits))

/-- What `Served` says about a configuration holds of its phases. -/
theorem Served.pending (hg : Alert g cfg.world)
    (hfit : ∀ u, (wakeupDiscipline env).Fits u (cfg.task u) (g u)) {t v : Tid} {c : Channel}
    (h : Served cfg t c) (ht : g t ≠ .owes c) (hv : g v = .idle c) (hvt : v ≠ t) :
    Pending t g cfg.world c := by
  by_cases hwoken : (cfg.world.notify c).woken = []
  · have hidle : IdleReader cfg v c := by
      refine ⟨reads_enter.mp ?_, hwoken ▸ List.not_mem_nil, idle_live hfit hv⟩
      have hsuits := hg.suits v
      rwa [hv] at hsuits
    rcases h ⟨v, hvt, hidle⟩ with hpermit | ⟨u, hut, hbusy⟩ | ⟨u, p, hp, hsignals⟩
    · exact .inl hpermit
    · rcases busy_phase hg hfit hbusy with h | h | h
      · exact .inr (.inl h)
      · exact .inr (.inr ⟨u, hut, .inl h⟩)
      · exact .inr (.inr ⟨u, hut, .inr (.inl h)⟩)
    · have howes := owes_of_signals hsignals (live_phase hfit hp).1
      refine .inr (.inr ⟨u, ?_, .inr (.inr howes)⟩)
      rintro rfl
      exact ht howes
  · exact .inr (.inl hwoken)

/-- **Every completed effect** keeps the invariant, in runs that meet the
    condition. -/
theorem alert_ready {t : Tid} {e : Eff D} {k : e.Res → Code D (Flow Exit)} {r : e.Res}
    {w' : World D F N} (hg : Alert g cfg.world)
    (hfit : ∀ u, (wakeupDiscipline env).Fits u (cfg.task u) (g u))
    (hallow : wakeups.allows (g t) e) (hok : servedAppends cfg (t, ⟨e, r⟩))
    (hpoll : poll env t e cfg.world (.ready r) w') :
    Alert (Function.update g t (wakeups.next (g t) e r)) w' := by
  -- a step that is of no interest to the phases
  have hframe : Unrelated e → wakeups.next (g t) e r = g t →
      Alert (Function.update g t (wakeups.next (g t) e r)) w' := fun he hnext => by
    obtain ⟨hn, hi⟩ := unrelated_poll he hpoll
    exact hg.frame_self hnext.symm hn hi
  cases hphase : g t with
  | off => rw [hphase] at hallow; exact hallow.elim
  | closed => rw [hphase] at hallow; exact hallow.elim
  | other =>
    rw [hphase] at hallow hframe
    exact hframe hallow rfl
  | calm =>
    rw [hphase] at hallow hframe
    cases e with
    | op o =>
      cases o with
      | inboxPushBack c b =>
        obtain ⟨_, rfl⟩ := hpoll
        exact alert_push hg hphase
      | inboxExtend c bs =>
        obtain ⟨_, rfl⟩ := hpoll
        refine alert_extend hg hphase fun hbs v hv => ?_
        have hserved : Served cfg t c := hok.resolve_left hbs
        refine hserved.pending hg hfit (hphase ▸ nofun) hv ?_
        rintro rfl
        exact absurd (hphase.symm.trans hv) nofun
      | _ => exact hframe trivial rfl
    | notifyOne c => exact hallow.elim
    | notified c => exact hallow.elim
    | _ => exact hframe trivial rfl
  | owes c =>
    rw [hphase] at hallow hframe
    cases e with
    | unlock l => exact hframe trivial rfl
    | notifyOne c' =>
      cases (hallow : c' = c)
      obtain ⟨_, rfl⟩ := hpoll
      exact alert_notifyOne hg hphase
    | _ => exact hallow.elim
  | awake c =>
    rw [hphase] at hallow hframe
    cases e with
    | lock l m => exact hframe trivial rfl
    | unlock l => exact hframe trivial rfl
    | op o =>
      cases o with
      | inboxDrain c' =>
        cases (hallow : c' = c)
        obtain ⟨_, rfl⟩ := hpoll
        refine alert_drain hg hphase ?_
        by_cases hr : r = []
        · exact .inl (if_pos hr)
        · exact .inr (if_neg hr)
      | _ => exact hallow.elim
    | _ => exact hallow.elim
  | idle c =>
    rw [hphase] at hallow hframe
    cases e with
    | unlock l => exact hframe trivial rfl
    | notified c' =>
      cases (hallow : c' = c)
      obtain ⟨hready, rfl⟩ := hpoll
      exact alert_notified hg hphase hready.symm
    | _ => exact hallow.elim
  | writing c =>
    rw [hphase] at hallow hframe
    cases e with
    | unlock l => exact hframe trivial rfl
    | io i =>
      cases i with
      | writeAll bs =>
        obtain ⟨n, _, rfl⟩ := hpoll
        refine alert_write hg hphase fun e he hne v hv => ?_
        have hsuits := hg.suits t
        rw [hphase] at hsuits
        have hserved : Served cfg t c :=
          (hok e c he (reads_enter.mp hsuits)).resolve_left hne
        refine hserved.pending hg hfit (hphase ▸ nofun) hv ?_
        rintro rfl
        exact absurd (hphase.symm.trans hv) nofun
      | _ => exact hallow.elim
    | _ => exact hallow.elim

theorem wakeupDiscipline_keeps (env : Env D F N) :
    (wakeupDiscipline env).Keeps servedAppends Alert where
  start := fun g w t hg hoff _ => by
    have hoff' : g t = .off := hoff
    exact hg.shift (fun c => hoff' ▸ ⟨nofun, nofun, nofun, nofun⟩) (Phase.enter_suits t).2
      (Phase.enter_suits t).1 rfl rfl
  again := fun g w t hg hleave => hg.frame_self hleave rfl fun _ h => h
  exit := fun g w t x hg hleave => by
    refine hg.shift (fun c => ?_) nofun trivial rfl rfl
    rcases (hleave : _ ∨ _ ∨ _) with h | h | h <;> rw [h] <;> exact ⟨nofun, nofun, nofun, nofun⟩
  pending := fun g w t e w' hg hallow hpoll => by
    by_cases he : ∃ c, e = .notified c
    · obtain ⟨c, rfl⟩ := he
      obtain ⟨hpending, rfl⟩ := hpoll
      cases hphase : g t with
      | idle c' =>
        rw [hphase] at hallow
        cases (hallow : c = c')
        exact alert_waiting hg hphase hpending.symm
      | _ => rw [hphase] at hallow; exact hallow.elim
    · have hn := (poll_pending hpoll).2.2.2 fun c hc => he ⟨c, hc⟩
      exact hg.frame hn fun c hne => (poll_pending_server hpoll) ▸ hne
  ready := fun cfg g t e k r w' hg hfit _ hallow hok hpoll =>
    ⟨trivial, alert_ready (k := k) hg hfit hallow hok hpoll⟩
  ambient := fun g w w' hg hw => by
    obtain ⟨n, _, rfl⟩ := hw
    exact hg.frame rfl fun _ h => h

/-- A task in a phase is running. -/
theorem running_of_phase (hfit : ∀ u, (wakeupDiscipline env).Fits u (cfg.task u) (g u)) {v : Tid}
    (hv : g v ≠ .off) : ∃ q, cfg.task v = .live q := by
  have hfitv := hfit v
  cases htask : cfg.task v with
  | idle =>
    rw [htask] at hfitv
    exact absurd hfitv hv
  | exited x =>
    rw [htask] at hfitv
    exact absurd hfitv hv
  | live q => exact ⟨q, rfl⟩

/-- A guest that owes a signal is not between two commands, and nobody else
    owes one. -/
theorem owes_inside (hg : Alert g cfg.world)
    (hfit : ∀ u, (wakeupDiscipline env).Fits u (cfg.task u) (g u)) {v : Tid} {c : Channel}
    (hv : g v = .owes c) : ∃ n, v = .guest n ∧ ¬ AtBoundary (cfg.task v) := by
  have hsuits := hg.suits v
  rw [hv] at hsuits
  obtain ⟨q, hq⟩ := running_of_phase hfit (v := v) (by rw [hv]; exact fun h => by cases h)
  have hobeys := (live_phase hfit hq).1
  rw [hv] at hobeys
  -- only a guest session appends to an inbox
  cases v with
  | guest n =>
    refine ⟨n, rfl, fun hboundary => ?_⟩
    rw [hq] at hboundary
    cases q with
    | ret x =>
      cases x with
      | again => exact absurd (hobeys : Phase.owes c = .calm) nofun
      | done x => rcases hobeys with h | h | h <;> cases h
    | eff e k =>
      have hguest : Prog.eff e k = guestOnce := hboundary
      rw [hguest] at hobeys
      exact hobeys.1.elim
  | attachOut n channel =>
    obtain h | h | ⟨c', h⟩ := Phase.enter_cases (.attachOut n channel)
    · simp only [Phase.enter] at h
      split at h <;> cases h
    · exact absurd (h.symm.trans hsuits) nofun
    · exact absurd (h.symm.trans hsuits) nofun
  | _ => exact absurd hsuits nofun

/-- **No wake-up is lost**, in runs whose SERWRITEM appends are served by
    somebody else. -/
theorem no_lost_wakeup (env : Env D F N) (s : Server D) (f : F) (net : N) {cfg : SysConfig D F N}
    {tr : List (SysLabel D)}
    (hrun : Run (system env) servedAppends (Config.initial (World.initial s f net)) tr cfg)
    (c : Channel) : ¬ Stranded cfg c := by
  have hinit : Alert (fun _ => .off) (World.initial s f net : World D F N) := by
    refine ⟨fun _ => trivial, fun c => List.nodup_nil, fun c t hk => ?_, fun c t _ ht => nomatch ht⟩
    rcases hk with hk | hk <;> cases hk
  obtain ⟨g, hg, hfit⟩ := (wakeupDiscipline env).run_invariant (wakeupDiscipline_keeps env) hrun
    ((wakeupDiscipline env).holds_initial hinit)
  intro hstranded
  have hparked : ∀ u p, u.reads = some c → cfg.task u = .live p →
      g u = .idle c ∧ u ∈ (cfg.world.notify c).waiters := by
    intro u p hu hp
    obtain ⟨hwaiters, k, hk⟩ := hstranded.parked u p hu hp
    have hwaits : Waits c (.eff (.notified c) k) := rfl
    exact ⟨idle_of_waits hwaits (live_phase hfit hk).1, hwaiters⟩
  obtain ⟨u, p, hu, hp⟩ := hstranded.reader
  rcases hg.attended c u hstranded.bytes (hparked u p hu hp).1 with h | h | ⟨v, h⟩
  · exact absurd (h.symm.trans hstranded.permit) nofun
  · -- a woken task would be an outbound task that is not parked
    obtain ⟨v, hv⟩ := List.exists_mem_of_ne_nil _ h
    have hidle := hg.known c v (.inl hv)
    have hsuits := hg.suits v
    rw [hidle] at hsuits
    obtain ⟨q, hq, _⟩ := idle_live hfit hidle
    have hwaits := (hparked v q (reads_enter.mp hsuits) hq).2
    exact (List.nodup_append.mp (hg.distinct c)).2.2 v hv v hwaits rfl
  · have hsuits := hg.suits v
    have hreader : Phase.enter v = .awake c → g v ≠ .off → g v = .idle c := by
      intro henter hv
      obtain ⟨q, hq⟩ := running_of_phase hfit hv
      exact (hparked v q (reads_enter.mp henter) hq).1
    rcases h with h | h | h
    · rw [h] at hsuits hreader
      exact absurd (hreader hsuits nofun) nofun
    · rw [h] at hsuits hreader
      exact absurd (hreader hsuits nofun) nofun
    · obtain ⟨n, rfl, hinside⟩ := owes_inside hg hfit h
      exact hinside (hstranded.guests n)

end runs

/-! ## Section 7: Two runs -/

/-- A client that attaches to channel 0, and a guest that sends `bytes`. -/
def readerAndGuest (bytes : List UInt8) : Tid → Peer
  | .attach 0 => .sending [0]
  | .guest 0 => .sending bytes
  | _ => .sending []

/-- Four turns up to the select, five to the registration of the waiter, and
    eight for the whole command of the guest. -/
def readerThenGuest : List Tid :=
  List.replicate 4 (Tid.attach 0) ++ List.replicate 5 (Tid.attachOut 0 0) ++
    List.replicate 8 (Tid.guest 0)

/-- SERWRITE of one byte wakes the reader. -/
theorem no_lost_wakeup_serwrite :
    ¬ Stranded (play (readerAndGuest [0xC3, 0, 65]) readerThenGuest) 0 := by
  have hmeets : playMeets servedAppends (readerAndGuest [0xC3, 0, 65]) readerThenGuest :=
    ⟨trivial, trivial, trivial, trivial, trivial, trivial, trivial, trivial, trivial, trivial,
      trivial, trivial, trivial, trivial, trivial, trivial, trivial, trivial⟩
  obtain ⟨tr, hrun⟩ := play_run_of _ _ hmeets
  exact @no_lost_wakeup Unit Unit (Tid → Peer) noDisk asciiTables scripted (Server.new Unit) () _ _
    _ hrun 0

/-- SERWRITEM of the same byte leaves it behind. -/
theorem serwritem_stranded :
    Stranded (play (readerAndGuest [0x64, 0, 1, 65]) readerThenGuest) 0 where
  guests := fun n => by
    by_cases hn : n = 0
    · subst hn
      exact (rfl : guestOnce = guestOnce)
    · rw [play_idle _ (by simp [readerThenGuest, hn])]
      trivial
  bytes := List.cons_ne_nil 65 []
  reader := ⟨.attachOut 0 0, _, rfl, rfl⟩
  parked := fun u p hu hp => by
    by_cases hmem : u ∈ readerThenGuest
    · have hcases : u = .attach 0 ∨ u = .attachOut 0 0 ∨ u = .guest 0 := by
        simpa [readerThenGuest, or_assoc] using hmem
      rcases hcases with rfl | rfl | rfl
      · cases hu
      · exact ⟨List.mem_singleton.mpr rfl, _, rfl⟩
      · cases hu
    · rw [play_idle _ hmem] at hp
      cases hp
  permit := rfl

theorem wakeup_lost : ¬ ∀ (tr : List (SysLabel Unit)) (cfg : ScriptConfig) (c : Channel),
    Run (plainSystem scripted) anyStep (Config.initial
      (World.initial (Server.new Unit) () (readerAndGuest [0x64, 0, 1, 65]))) tr cfg →
    ¬ Stranded cfg c := by
  intro h
  obtain ⟨tr, hrun⟩ := play_run (readerAndGuest [0x64, 0, 1, 65]) readerThenGuest
  exact h tr _ 0 hrun serwritem_stranded

end DriveWire
