import DriveWire.Server.Guards
import DriveWire.Vserial.Poll
import Mathlib.Logic.Relation

/-! # The Poll Loop in Every State

    A poll that is under way can be finished whenever no other task holds the
    outbox: by induction on the code that is left of the session's iteration,
    each of its effects is answered, by the server or by the guest.  From
    there the loop goes on until every queue is empty. -/

namespace DriveWire

open Async Server Relation

variable {D F N : Type}

/-! ## Section 1: The guest speaks -/

/-- The guest takes one step. -/
def Poller.Next (p p' : Poller) : Prop := p.step = some p'

theorem ready_speaks {p : Poller} (h : p.phase = .ready) :
    ∃ p', p.Next p' ∧ 1 ≤ p'.toServer.length := by
  refine ⟨{ p with toServer := p.toServer ++ [0x43], phase := .reply }, ?_, ?_⟩
  · unfold Poller.Next Poller.step
    rw [h]
  · simp

/-- While the session waits for an opcode, the guest will send one. -/
theorem opcode_speaks {out : Channel → List UInt8} {p : Poller} {fl : Flight}
    (h : Agree out .opcode p fl) :
    ∃ p', ReflTransGen Poller.Next p p' ∧ 1 ≤ p'.toServer.length := by
  have hthen : ∀ {p p₁ : Poller}, p.step = some p₁ → p₁.phase = .ready →
      ∃ p', ReflTransGen Poller.Next p p' ∧ 1 ≤ p'.toServer.length := by
    intro p p₁ hstep hready
    obtain ⟨p', hnext, hlen⟩ := ready_speaks hready
    exact ⟨p', .tail (.single hstep) hnext, hlen⟩
  cases h with
  | ready turn taken replies =>
    obtain ⟨p', hnext, hlen⟩ := ready_speaks (p := ⟨[], [], .ready, taken, replies⟩) rfl
    exact ⟨p', .single hnext, hlen⟩
  | asked => exact ⟨_, .refl, le_rfl⟩
  | replied found taken replies hpromise =>
    have hstep := step_reply found taken replies
    cases found with
    | empty => exact hthen hstep rfl
    | byte c b =>
      rw [replySecond, handle_byte hpromise] at hstep
      exact hthen hstep rfl
    | burst c n =>
      rw [replySecond, handle_burst hpromise.1] at hstep
      exact ⟨_, .single hstep, by simp⟩
  | requested => exact ⟨_, .refl, by simp⟩
  | sent c n bytes taken replies hlen =>
    exact hthen (step_takes hlen (idOf c) taken replies) rfl

/-! ## Section 2: Every effect of the session is answered -/

/-- After some steps of the guest, which do not depend on anybody else. -/
theorem session_answered {g : Nat} {w : World D F (Poller × N)} {turn : Turn} {fl : Flight}
    {e : Eff D} (h : Agree w.server.vserialOutbox turn w.net.1 fl) (hallow : turn.Allows e)
    (hfree : ∀ l m, e = .lock l m → w.holders l = []) :
    ∃ p', ReflTransGen Poller.Next w.net.1 p' ∧
      ∃ r w', pollAnswer g e { w with net := (p', w.net.2) } = some (r, w') := by
  have hread : ∀ {n : Nat} {p' : Poller}, n ≤ p'.toServer.length →
      ∃ r w', pollAnswer g (.io (.readExact n)) { w with net := (p', w.net.2) } =
        some (r, w') := by
    intro n p' hn
    simp only [pollAnswer, Poller.answer, dif_pos hn]
    exact ⟨_, _, rfl⟩
  -- the session waits for the guest only at an opcode; all else is at hand
  cases turn with
  | off => cases e <;> cases hallow
  | other => exact h.not_other.elim
  | opcode =>
    cases e with
    | io i =>
      cases i with
      | readExact n =>
        cases (hallow : n = 1)
        obtain ⟨p', hspeaks, hlen⟩ := opcode_speaks h
        exact ⟨p', hspeaks, hread hlen⟩
      | _ => cases hallow
    | unlock l => exact ⟨_, .refl, _, _, rfl⟩
    | _ => cases hallow
  | serread =>
    cases e with
    | lock l m => exact ⟨_, .refl, _, _, if_pos (hfree l m rfl)⟩
    | op o =>
      cases o with
      | outboxScan => exact ⟨_, .refl, _, _, rfl⟩
      | _ => cases hallow
    | _ => cases hallow
  | reply found =>
    cases e with
    | io i =>
      cases i with
      | writeAll bs => exact ⟨_, .refl, _, _, rfl⟩
      | _ => cases hallow
    | _ => cases hallow
  | serreadm =>
    cases e with
    | io i =>
      cases i with
      | readExact n =>
        cases (hallow : n = 2)
        refine ⟨_, .refl, hread ?_⟩
        generalize w.net.1 = p at h
        cases h with
        | ready _ _ _ h => rcases h with h | h <;> cases h
        | asked _ _ _ h => rcases h with h | h <;> cases h
        | header => exact le_rfl
      | _ => cases hallow
    | _ => cases hallow
  | pop channel count =>
    cases e with
    | lock l m => exact ⟨_, .refl, _, _, if_pos (hfree l m rfl)⟩
    | op o =>
      cases o with
      | outboxPop c n => exact ⟨_, .refl, _, _, rfl⟩
      | _ => cases hallow
    | _ => cases hallow
  | data bytes =>
    cases e with
    | io i =>
      cases i with
      | writeAll bs => exact ⟨_, .refl, _, _, rfl⟩
      | _ => cases hallow
    | unlock l => exact ⟨_, .refl, _, _, rfl⟩
    | _ => cases hallow

/-- The session locks nothing but the outbox. -/
theorem Turn.locks {turn : Turn} {l : Lock} {m : Mode} (h : turn.Allows (.lock l m : Eff D))
    (hturn : turn ≠ .other) : l = .vserialOutbox := by
  cases turn with
  | serread => exact h
  | pop channel count => exact h
  | other => exact absurd rfl hturn
  | _ => cases h

/-- The guards on the outbox, if there are any, are those of session `g`. -/
def Alone (g : Nat) (w : World D F (Poller × N)) : Prop :=
  ∀ x ∈ w.holders .vserialOutbox, x.1 = .guest g

/-- The session's own steps leave the outbox to it. -/
theorem pollAnswer_alone {g : Nat} {e : Eff D} {r : e.Res} {w w' : World D F (Poller × N)}
    (h : pollAnswer g e w = some (r, w')) (hw : Alone g w) : Alone g w' := by
  -- only its lock and its unlock touch the guards
  cases e with
  | io i =>
    rw [pollAnswer] at h
    split at h
    · cases h
      exact hw
    · cases h
  | lock l m =>
    by_cases hl : w.holders l = []
    · rw [pollAnswer, if_pos hl] at h
      cases h
      intro x hx
      by_cases hout : l = .vserialOutbox
      · subst hout
        simp [World.acquire, hl] at hx
        rw [hx]
      · apply hw
        simpa [World.acquire, Function.update_of_ne (Ne.symm hout)] using hx
    · rw [pollAnswer, if_neg hl] at h
      cases h
  | unlock l =>
    cases h
    intro x hx
    by_cases hout : l = .vserialOutbox
    · subst hout
      apply hw
      simp [World.release] at hx
      exact hx.1
    · apply hw
      simpa [World.release, Function.update_of_ne (Ne.symm hout)] using hx
  | op o =>
    cases o with
    | outboxScan =>
      cases h
      exact hw
    | outboxPop c n =>
      cases h
      exact hw
    | _ => cases h
  | _ => cases h

theorem pollAnswer_quiet {g : Nat} {e : Eff D} {r : e.Res} {w w' : World D F (Poller × N)}
    (h : pollAnswer g e w = some (r, w')) (c : Channel) :
    ¬ Sends c ((.guest g, ⟨e, r⟩) : SysLabel D) := by
  rintro ⟨bs, heq⟩
  cases (heq : e = _)
  cases h

/-! ## Section 3: A poll under way is finished -/

section finish

variable [VDisk D] [UnicodeTables] {rest : Env D F N} {g : Nat}

/-- The guest takes its steps, and nothing else happens. -/
theorem guest_runs {c : SysConfig D F (Poller × N)} {p : Poller}
    (h : ReflTransGen Poller.Next c.world.net.1 p) :
    Run (system (withPoller rest g)) nothingSent c []
      { c with world := { c.world with net := (p, c.world.net.2) } } := by
  induction h with
  | refl => exact Run.refl c
  | tail _ hstep ih => exact ih.trans (guest_run hstep)

variable (rest g) in
/-- The iteration under way runs to its end, by induction on the code that is
    left of it, and the session has given back the outbox then. -/
theorem finish_run {s : Server D} {f : F} {n : N} (hlast : s.vserialOutbox lastChannel = [])
    (p : Code D (Flow Exit)) {tr : List (SysLabel D)} {c : SysConfig D F (Poller × N)}
    (hrun : Run (system (withPoller rest g)) (fun _ l => ¬ Sends lastChannel l)
      (Config.initial (World.initial s f (Poller.new, n))) tr c)
    (htask : c.task (.guest g) = .live p) (halone : Alone g c.world) :
    ∃ tr' c', Run (system (withPoller rest g)) nothingSent c tr' c' ∧
      c'.task (.guest g) = .live guestOnce ∧ c'.world.holders .vserialOutbox = [] := by
  induction p generalizing tr c with
  | ret x =>
    obtain ⟨turns, hturns⟩ := polling_run rest g s f n hlast hrun
    have hfit := hturns.2 (.guest g)
    rw [htask] at hfit
    cases x with
    | done x => exact hfit.elim
    | again =>
      have hguarded := guarded_run (hrun.mono fun _ _ _ => trivial)
      refine ⟨[], _, (Run.refl c).silent (Step.again (.guest g) htask), Config.put_self .., ?_⟩
      apply List.eq_nil_iff_forall_not_mem.mpr
      rintro ⟨t, m⟩ hmem
      cases (halone _ hmem : t = .guest g)
      exact hguarded.resting _ _ _ m htask hmem
  | eff e k ih =>
    obtain ⟨turns, hturns⟩ := polling_run rest g s f n hlast hrun
    obtain ⟨fl, hagree, -⟩ := hturns.1.agree
    have hfit := hturns.2 (.guest g)
    rw [htask] at hfit
    have hallow : (turns (.guest g)).Allows e := hfit.1
    have hfree : ∀ l m, e = .lock l m → c.world.holders l = [] := by
      rintro l m rfl
      have hturn : turns (.guest g) ≠ .other := by
        intro h
        rw [h] at hagree
        exact hagree.not_other
      cases Turn.locks hallow hturn
      apply List.eq_nil_iff_forall_not_mem.mpr
      rintro ⟨t, m'⟩ hmem
      cases (halone _ hmem : t = .guest g)
      exact (guarded_run (hrun.mono fun _ _ _ => trivial)).waiting _ _ _ m' k htask hmem
    obtain ⟨q, hspeaks, r, w', hanswer⟩ := session_answered (g := g) hagree hallow hfree
    -- the guest speaks, and the effect completes
    have hspoken : Run (system (withPoller rest g)) nothingSent c [] _ := guest_runs hspeaks
    have hstep : Step (system (withPoller rest g)) _ (some (.guest g, ⟨e, r⟩)) _ :=
      Step.ready (c := { c with world := { c.world with net := (q, c.world.net.2) } })
        (.guest g) e k r w' htask (pollAnswer_poll hanswer)
    have honce := hspoken.act _ (pollAnswer_quiet hanswer) hstep
    obtain ⟨tr', c', hrun', htask', hfree'⟩ :=
      ih r (hrun.trans (honce.mono fun _ _ hsent => hsent lastChannel)) (Config.put_self ..)
        (pollAnswer_alone hanswer halone)
    exact ⟨_, c', honce.trans hrun', htask', hfree'⟩

/-! ## Section 4: Between two polls -/

/-- The session waits for an opcode, and nobody uses the outbox. -/
structure Waiting (g : Nat) (c : SysConfig D F (Poller × N)) : Prop where
  task : c.task (.guest g) = .live guestOnce
  free : c.world.holders .vserialOutbox = []
  last : c.world.server.vserialOutbox lastChannel = []

omit [VDisk D] [UnicodeTables] in
theorem Waiting.between {c : SysConfig D F (Poller × N)} (h : Waiting g c)
    {taken : UInt8 → List UInt8} {replies : List (UInt8 × UInt8)}
    (hp : c.world.net.1 = ⟨[], [], .ready, taken, replies⟩) : Between g c :=
  ⟨h.task, by rw [hp], h.free, h.last⟩

omit [VDisk D] [UnicodeTables] in
theorem Waiting.spoken {c : SysConfig D F (Poller × N)} (h : Waiting g c) (p : Poller) :
    Waiting g { c with world := { c.world with net := (p, c.world.net.2) } } :=
  ⟨h.task, h.free, h.last⟩

variable (rest) in
/-- The guest takes a step after which it is about to poll. -/
theorem Waiting.step_between {c : SysConfig D F (Poller × N)} (h : Waiting g c)
    {taken : UInt8 → List UInt8} {replies : List (UInt8 × UInt8)}
    (hstep : c.world.net.1.step = some ⟨[], [], .ready, taken, replies⟩) :
    ∃ tr' c', Run (system (withPoller rest g)) nothingSent c tr' c' ∧ Between g c' := by
  refine ⟨[], _, guest_run hstep, ?_⟩
  exact ⟨h.task, rfl, h.free, h.last⟩

variable (rest) in
/-- It has asked for the bytes that it was promised. -/
theorem Waiting.requested {c : SysConfig D F (Poller × N)} (h : Waiting g c) {ch : Channel}
    {n : UInt8} {taken : UInt8 → List UInt8} {replies : List (UInt8 × UInt8)}
    (hp : c.world.net.1 = ⟨[0x63, idOf ch, n], [], .burst (idOf ch) n, taken, replies⟩)
    (hpromise : Promise c.world.server.vserialOutbox (.burst ch n)) :
    ∃ tr' c', Run (system (withPoller rest g)) nothingSent c tr' c' ∧ Between g c' := by
  obtain ⟨s, tr, hout, hrun⟩ := fetch_run rest c h.task h.free hp hpromise
  obtain ⟨-, -, hmoves⟩ := pop_moves hpromise taken replies
  have hlast : s.vserialOutbox lastChannel = [] := by
    rw [hout]
    exact hmoves.shrink _ h.last
  exact ⟨tr, _, hrun, between_handled h.task hlast _ _⟩

variable (rest) in
/-- It has a reply to read. -/
theorem Waiting.replied {c : SysConfig D F (Poller × N)} (h : Waiting g c) {found : Scan}
    {taken : UInt8 → List UInt8} {replies : List (UInt8 × UInt8)}
    (hp : c.world.net.1 = ⟨[], serreadReply found, .reply, taken, replies⟩)
    (hpromise : Promise c.world.server.vserialOutbox found) :
    ∃ tr' c', Run (system (withPoller rest g)) nothingSent c tr' c' ∧ Between g c' := by
  have hstep : c.world.net.1.step =
      some (Poller.handle ⟨[], serreadReply found, .reply, taken, replies⟩
        (replyCode found) (replySecond found) []) := by
    rw [hp]
    exact step_reply found taken replies
  cases found with
  | empty => exact h.step_between rest hstep
  | byte ch b =>
    rw [replySecond, handle_byte hpromise] at hstep
    exact h.step_between rest hstep
  | burst ch n =>
    rw [replySecond, handle_burst hpromise.1] at hstep
    have hread : Run (system (withPoller rest g)) nothingSent c [] _ := guest_run hstep
    have hwaits := h.spoken ⟨[0x63, idOf ch, n], [], .burst (idOf ch) n, taken,
      replies ++ [(replyCode (.burst ch n), n)]⟩
    obtain ⟨tr', c', hrun, hbetween⟩ := hwaits.requested rest rfl hpromise
    exact ⟨_, c', hread.trans hrun, hbetween⟩

variable (rest) in
/-- It has asked, and will get a reply. -/
theorem Waiting.asked {c : SysConfig D F (Poller × N)} (h : Waiting g c)
    {taken : UInt8 → List UInt8} {replies : List (UInt8 × UInt8)}
    (hp : c.world.net.1 = ⟨[0x43], [], .reply, taken, replies⟩) :
    ∃ tr' c', Run (system (withPoller rest g)) nothingSent c tr' c' ∧ Between g c' := by
  generalize hscan : scanOutbox (List.finRange vserialChannels) c.world.server.vserialOutbox = scan
  obtain ⟨found, out'⟩ := scan
  obtain ⟨hpromise, hmoves⟩ := scan_moves h.last taken replies hscan
  have heval := eval_serread_poll (g := g) h.free hp
  have hfound : (Op.outboxScan.run c.world.server).1 = found := congrArg Prod.fst hscan
  have hout : (Op.outboxScan.run c.world.server).2.vserialOutbox = out' := congrArg Prod.snd hscan
  rw [hfound] at heval
  obtain ⟨tr, hserved⟩ : ∃ tr, Run (system (withPoller rest g)) nothingSent c tr _ :=
    session_run h.task heval
  have hwaits : Waiting g (handled c (Op.outboxScan.run c.world.server).2
      ⟨[], serreadReply found, .reply, taken, replies⟩) := by
    refine ⟨h.task, served_holders .., ?_⟩
    show (Op.outboxScan.run c.world.server).2.vserialOutbox lastChannel = []
    rw [hout]
    exact hmoves.shrink _ h.last
  rw [← hout] at hpromise
  obtain ⟨tr', c', hrun, hbetween⟩ := hwaits.replied rest rfl hpromise
  exact ⟨_, c', hserved.trans hrun, hbetween⟩

variable (rest) in
/-- **From the opcode read to the next poll**, whatever the guest waits for. -/
theorem Waiting.settles {c : SysConfig D F (Poller × N)} (h : Waiting g c) {fl : Flight}
    (hagree : Agree c.world.server.vserialOutbox .opcode c.world.net.1 fl) :
    ∃ tr' c', Run (system (withPoller rest g)) nothingSent c tr' c' ∧ Between g c' := by
  generalize hp : c.world.net.1 = p at hagree
  cases hagree with
  | ready turn taken replies => exact ⟨[], c, Run.refl c, h.between hp⟩
  | asked turn taken replies => exact h.asked rest hp
  | replied found taken replies hpromise => exact h.replied rest hp hpromise
  | requested ch n taken replies hpromise => exact h.requested rest hp hpromise
  | sent ch n bytes taken replies hlen =>
    apply h.step_between
    rw [hp]
    exact step_takes hlen (idOf ch) taken replies

variable (rest g) in
/-- From every reachable state in which no other task holds the outbox, a
    state between two polls can be reached. -/
theorem between_run {s : Server D} {f : F} {n : N} (hlast : s.vserialOutbox lastChannel = [])
    {tr : List (SysLabel D)} {c : SysConfig D F (Poller × N)}
    (hrun : Run (system (withPoller rest g)) (fun _ l => ¬ Sends lastChannel l)
      (Config.initial (World.initial s f (Poller.new, n))) tr c) (halone : Alone g c.world) :
    ∃ tr' c', Run (system (withPoller rest g)) nothingSent c tr' c' ∧ Between g c' := by
  obtain ⟨tr₁, c₁, hrun₁, htask, hfree⟩ : ∃ tr₁ c₁,
      Run (system (withPoller rest g)) nothingSent c tr₁ c₁ ∧
        c₁.task (.guest g) = .live guestOnce ∧ c₁.world.holders .vserialOutbox = [] := by
    cases htask : c.task (.guest g) with
    | idle =>
      have hmay : (system (withPoller rest g)).mayStart (.guest g) c.world := .inl ⟨g, rfl, rfl⟩
      have hstart := Step.start (Tid.guest g) htask hmay
      obtain ⟨tr', c', hrun', hdone⟩ := finish_run rest g hlast guestOnce (hrun.silent hstart)
        (Config.put_self ..) halone
      exact ⟨_, c', ((Run.refl c).silent hstart).trans hrun', hdone⟩
    | live p => exact finish_run rest g hlast p hrun htask halone
    | exited x =>
      -- the session of a polling guest does not end
      obtain ⟨turns, hturns⟩ := polling_run rest g s f n hlast hrun
      obtain ⟨fl, hagree, -⟩ := hturns.1.agree
      have hgone := hturns.2 (.guest g)
      rw [htask] at hgone
      rw [show turns (.guest g) = .other from hgone] at hagree
      exact hagree.not_other.elim
  have hall := hrun.trans (hrun₁.mono fun _ _ hsent => hsent lastChannel)
  obtain ⟨turns, hturns⟩ := polling_run rest g s f n hlast hall
  obtain ⟨fl, hagree, -⟩ := hturns.1.agree
  have hfit := hturns.2 (.guest g)
  rw [htask] at hfit
  have hallow : (turns (.guest g)).Allows (.io (.readExact 1) : Eff D) := hfit.1
  have hturn : turns (.guest g) = .opcode := by
    generalize turns (.guest g) = turn at hallow hagree
    cases turn with
    | opcode => rfl
    | serreadm => cases hallow
    | other => exact hagree.not_other.elim
    | _ => cases hallow
  rw [hturn] at hagree
  have hwaits : Waiting g c₁ := ⟨htask, hfree, hturns.1.last⟩
  obtain ⟨tr₂, c₂, hrun₂, hbetween⟩ := hwaits.settles rest hagree
  exact ⟨_, c₂, hrun₁.trans hrun₂, hbetween⟩

end finish

/-! ## Section 5: The polls are numbered -/

theorem step_asked {p p' : Poller} (h : p.step = some p') : p.asked ≤ p'.asked := by
  unfold Poller.step at h
  cases hphase : p.phase with
  | ready =>
    rw [hphase] at h
    cases h
    simp [Poller.asked, hphase]
  | reply =>
    rw [hphase] at h
    dsimp only at h
    split at h
    · cases h
      unfold Poller.handle
      split <;> simp [Poller.asked, hphase]
    · cases h
  | burst channel count =>
    rw [hphase] at h
    dsimp only at h
    split at h
    · cases h
      simp [Poller.asked, hphase]
    · cases h

theorem answer_asked (i : Io) (p : Poller) : (p.answer i).2.asked = p.asked := by
  cases i with
  | readExact n =>
    by_cases hn : n ≤ p.toServer.length
    · rw [Poller.answer, dif_pos hn]
      rfl
    · rw [Poller.answer, dif_neg hn]
  | _ => rfl

section loop

variable [VDisk D] [UnicodeTables] (rest : Env D F N) (g : Nat)

variable {rest g} in
theorem asked_step {c c' : SysConfig D F (Poller × N)} {o : Option (SysLabel D)}
    (h : Step (system (withPoller rest g)) c o c') :
    c.world.net.1.asked ≤ c'.world.net.1.asked := by
  -- the number of polls grows when the guest sends SERREAD, and in no other way
  cases h with
  | start t _ _ => exact le_rfl
  | again t _ => exact le_rfl
  | exit t x _ => exact le_rfl
  | pending t e k w _ hpoll =>
    have hsame : w.net.1 = c.world.net.1 := poll_pending_poller hpoll
    show c.world.net.1.asked ≤ w.net.1.asked
    rw [hsame]
  | ready t e k r w _ hpoll =>
    have hpoll : poll (withPoller rest g) t e c.world (.ready r) w := hpoll
    show c.world.net.1.asked ≤ w.net.1.asked
    by_cases ht : t = .guest g
    · subst ht
      cases e with
      | io i =>
        obtain ⟨hans, -⟩ := poller_answers hpoll
        have hsame := answer_asked i c.world.net.1
        rw [hans] at hsame
        exact hsame.ge
      | _ => rw [poll_net hpoll fun _ h => by cases h]
    · have hsame : w.net.1 = c.world.net.1 := poll_other_poller ht hpoll
      rw [hsame]
  | ambient w hw =>
    obtain ⟨n, hnet, rfl⟩ := hw
    rcases hnet with ⟨hstep, -⟩ | ⟨hn, -⟩
    · exact step_asked hstep
    · show c.world.net.1.asked ≤ n.1.asked
      rw [hn]

variable {rest g} in
theorem asked_run {ok : SysConfig D F (Poller × N) → SysLabel D → Prop} {tr : List (SysLabel D)}
    {c c' : SysConfig D F (Poller × N)} (hrun : Run (system (withPoller rest g)) ok c tr c') :
    c.world.net.1.asked ≤ c'.world.net.1.asked := by
  induction hrun with
  | refl => exact le_rfl
  | silent _ hstep ih => exact ih.trans (asked_step hstep)
  | act _ _ _ hstep ih => exact ih.trans (asked_step hstep)

/-! ## Section 6: The loop -/

/-- After the run `tr` from `s` to `c`, polling until nothing is left: the
    guest has taken all that was ever queued for it, and one of the first
    `total + 1` polls after `c` has found nothing. -/
structure Emptied (s : Server D) (tr : List (SysLabel D)) (c c' : SysConfig D F (Poller × N)) :
    Prop where
  empty : ∀ ch, c'.world.server.vserialOutbox ch = []
  taken : ∀ ch, c'.world.net.1.taken (idOf ch) =
    s.vserialOutbox ch ++ traffic (fun o _ => outboxIn ch o) tr
  found : ∃ k ≤ total c.world.server.vserialOutbox,
    c'.world.net.1.replies[c.world.net.1.asked + k]? = some (0x00, 0x00)

/-- From every reachable state in which no other task holds the outbox. -/
theorem emptied_run {s : Server D} {f : F} {n : N} (hlast : s.vserialOutbox lastChannel = [])
    {tr : List (SysLabel D)} {c : SysConfig D F (Poller × N)}
    (hrun : Run (system (withPoller rest g)) (fun _ l => ¬ Sends lastChannel l)
      (Config.initial (World.initial s f (Poller.new, n))) tr c) (halone : Alone g c.world) :
    ∃ tr' c', Run (system (withPoller rest g)) nothingSent c tr' c' ∧ Emptied s tr c c' := by
  obtain ⟨tr₁, c₁, hrun₁, hbetween⟩ := between_run rest g hlast hrun halone
  obtain ⟨tr₂, c₂, hrun₂, hquiet, hdrained⟩ := poll_out rest hbetween
  have hmore := hrun₁.trans hrun₂
  refine ⟨tr₁ ++ tr₂, c₂, hmore, hdrained.empty, fun ch => ?_, ?_⟩
  · -- nothing is in a queue any more, and nothing is on its way
    obtain ⟨turns, hturns⟩ := polling_run rest g s f n hlast
      (hrun.trans (hmore.mono fun _ _ hsent => hsent lastChannel))
    obtain ⟨fl, hagree, hdelivers, -⟩ := hturns.1.agree
    have hnone : traffic (fun o _ => outboxIn ch o) (tr₁ ++ tr₂) = [] :=
      traffic_of_not_sends fun l hl => hmore.forall_label (fun _ _ hsent => hsent ch) l hl
    have hall := hdelivers ch
    rw [ready_flight hagree (by rw [hquiet.quiet]), hdrained.empty ch, traffic_append,
      hnone] at hall
    simpa [Flight.none] using hall.symm
  · obtain ⟨turns, hturns⟩ := polling_run rest g s f n hlast hrun
    obtain ⟨turn, fl, hagree, hwithin⟩ := quiet_run rest g hturns hmore
    have hread : answers c₂.world.net.1 fl = c₂.world.net.1.replies := by
      rw [ready_flight hagree (by rw [hquiet.quiet])]
      exact List.append_nil _
    rw [Within, hread] at hwithin
    rcases hwithin with ⟨hfound, -⟩ | ⟨hnot, -⟩
    · exact hfound
    · -- the last reply has found nothing, and was not given before `c`
      obtain ⟨rs, hreplies, -⟩ := hdrained.replies
      have hasked : c₁.world.net.1.asked = c₁.world.net.1.replies.length := by
        rw [hbetween.quiet]
        rfl
      have hlater := asked_run hrun₁
      refine absurd ?_ (hnot (c₁.world.net.1.replies.length + rs.length - c.world.net.1.asked))
      have hindex : c.world.net.1.asked +
          (c₁.world.net.1.replies.length + rs.length - c.world.net.1.asked) =
          (c₁.world.net.1.replies ++ rs).length := by
        rw [List.length_append]
        omega
      rw [hreplies, hindex, List.getElem?_concat_length]

/-- **The poll loop delivers every byte once and in order.**  The bytes taken
    for a channel are a prefix of those queued for it; no SERREADM is padded;
    from any state that is reached, if no more bytes arrive, one of the
    first `total + 1` polls finds nothing, with every queue empty; and from any
    state in which no other task holds the outbox, this is reached, and the
    guest has taken every byte then. -/
theorem poll_loop (s : Server D) (f : F) (n : N) (hlast : s.vserialOutbox lastChannel = [])
    {tr : List (SysLabel D)} {c : SysConfig D F (Poller × N)}
    (hrun : Run (system (withPoller rest g)) (fun _ l => ¬ Sends lastChannel l)
      (Config.initial (World.initial s f (Poller.new, n))) tr c) :
    (∀ ch, c.world.net.1.taken (idOf ch) <+:
      s.vserialOutbox ch ++ traffic (fun o _ => outboxIn ch o) tr) ∧
    (∀ ch k popped, ((.guest g, ⟨.op (.outboxPop ch k), popped⟩) : SysLabel D) ∈ tr →
      none ∉ popped.toList) ∧
    (∀ tr' c', Run (system (withPoller rest g)) nothingSent c tr' c' → Counted c c') ∧
    (Between g c →
      ∃ tr' c', Run (system (withPoller rest g)) nothingSent c tr' c' ∧ Drained c c') ∧
    (Alone g c.world →
      ∃ tr' c', Run (system (withPoller rest g)) nothingSent c tr' c' ∧ Emptied s tr c c') := by
  obtain ⟨turns, hturns⟩ := polling_run rest g s f n hlast hrun
  obtain ⟨fl, -, hstream, hwhole⟩ := hturns.1.agree
  refine ⟨fun ch => ?_, hwhole, ?_, fun hbetween => ?_, emptied_run rest g hlast hrun⟩
  · rw [hstream ch, List.append_assoc]
    exact List.prefix_append _ _
  · intro tr' c' hrun'
    obtain ⟨turn, fl', hagree, hwithin⟩ := quiet_run rest g hturns hrun'
    exact counted_of_within hagree hwithin
  · obtain ⟨tr', c', hrun', -, hdrained⟩ := poll_out rest hbetween
    exact ⟨tr', c', hrun', hdrained⟩

end loop

/-! ## Section 7: A byte that is queued during a poll -/

/-- The channel that a step sends to. -/
def sentTo : SysLabel Unit → Option Channel
  | (_, ⟨.op (.outboxExtend c _), _⟩) => some c
  | _ => none

theorem sentTo_of_sends {c : Channel} {l : SysLabel Unit} (h : Sends c l) : sentTo l = some c := by
  obtain ⟨t, e, r⟩ := l
  obtain ⟨bs, hbs⟩ := h
  cases (hbs : e = .op (.outboxExtend c bs))
  rfl

/-- A host that calls `send_to_vserial` once. -/
def sendOnce : (i : Io) → Bool → Poll i.Res × Bool
  | .nextCall, false => (.ready (.sendToVserial 1 [0x44]), true)
  | .nextCall, true => (.pending, true)
  | .readExact _, called => (.pending, called)
  | .read _, called => (.pending, called)
  | .writeAll _, called => (.pending, called)
  | .nextLine, called => (.pending, called)

def sender : Answers Unit Unit Bool where
  net := fun _ i called => sendOnce i called
  sys := fun y f => (y.answer, f)

/-- The host next to a guest that polls. -/
def senderAndGuest : Answers Unit Unit (Poller × Bool) where
  net := fun t i x =>
    if t = .guest 0 then ((x.1.answer i).1, ((x.1.answer i).2, x.2))
    else ((sender.net t i x.2).1, (x.1, (sender.net t i x.2).2))
  sys := fun y f => (y.answer, f)

abbrev sendingEnv : Env Unit Unit (Poller × Bool) := withPoller sender.env 0

theorem senderAndGuest_net (t : Tid) (i : Io) (x : Poller × Bool) :
    sendingEnv.net t i x (senderAndGuest.net t i x).1 (senderAndGuest.net t i x).2 := by
  by_cases ht : t = .guest 0
  · simp only [senderAndGuest, if_pos ht]
    exact .inl ⟨ht, rfl, rfl⟩
  · simp only [senderAndGuest, if_neg ht]
    exact .inr ⟨ht, rfl, rfl, rfl⟩

def startSending : Tid → World Unit Unit (Poller × Bool) → Bool
  | .guest n, _ => n = 0
  | t, w => Answers.start t w

theorem startSending_spec (t : Tid) (w : World Unit Unit (Poller × Bool))
    (h : startSending t w = true) : mayStart sendingEnv t w := by
  cases t with
  | guest n => exact .inl ⟨n, rfl, of_decide_eq_true h⟩
  | _ => exact Answers.mayStart_of_start (.inr ⟨(fun k hk => by cases hk), trivial⟩) h

abbrev SendConfig : Type := SysConfig Unit Unit (Poller × Bool)

abbrev sendSystem : Runtime Tid (Eff Unit) Eff.Res (World Unit Unit (Poller × Bool)) Exit :=
  @system Unit Unit _ noDisk asciiTables sendingEnv

def sendStart : SendConfig :=
  Config.initial (World.initial threeQueued () (Poller.new, false))

/-- The guest has sent SERREAD. -/
def serreadSent : SendConfig :=
  withNet sendStart (⟨[0x43], [], .reply, fun _ => [], []⟩, false)

/-- The session has told it that three bytes are queued. -/
def countGiven : SendConfig :=
  schedule sendSystem senderAndGuest.poll startSending serreadSent (List.replicate 6 (.guest 0))

/-- The guest has asked for them. -/
def serreadmSent : SendConfig :=
  withNet countGiven (countGiven.world.net.1.handle (replyCode (.burst 1 3)) 3 [], false)

/-- The host has queued a fourth one. -/
def fourthQueued : SendConfig :=
  schedule sendSystem senderAndGuest.poll startSending serreadmSent (List.replicate 5 (.api 0))

def fourthLabels : List (SysLabel Unit) :=
  scheduleLabels sendSystem senderAndGuest.poll startSending serreadSent
      (List.replicate 6 (.guest 0)) ++
    scheduleLabels sendSystem senderAndGuest.poll startSending serreadmSent
      (List.replicate 5 (.api 0))

theorem fourthQueued_run : Run sendSystem anyStep sendStart fourthLabels fourthQueued := by
  have hask : Step sendSystem sendStart none serreadSent := ambient_step (.inl ⟨rfl, rfl⟩)
  have hcount : Run sendSystem anyStep serreadSent _ countGiven :=
    run_schedule (senderAndGuest.poll_spec_in senderAndGuest_net fun _ _ _ => ⟨rfl, rfl⟩)
      startSending_spec serreadSent (List.replicate 6 (.guest 0)) (scheduleMeets_any _ _)
  have hrequest : Step sendSystem countGiven none serreadmSent := ambient_step (.inl ⟨rfl, rfl⟩)
  have hsend : Run sendSystem anyStep serreadmSent _ fourthQueued :=
    run_schedule (senderAndGuest.poll_spec_in senderAndGuest_net fun _ _ _ => ⟨rfl, rfl⟩)
      startSending_spec serreadmSent (List.replicate 5 (.api 0)) (scheduleMeets_any _ _)
  exact (((Run.refl sendStart).silent hask).trans hcount).trans
    (((Run.refl countGiven).silent hrequest).trans hsend)

/-- A guest is told that three bytes are queued, and a host queues a fourth
    one before the guest's SERREADM is read: the guest gets all four. -/
theorem poll_loop_fourth : ∃ tr' c',
    Run sendSystem (fun _ l => ¬ Sends lastChannel l) sendStart fourthLabels fourthQueued ∧
    fourthQueued.world.net.1.toServer = [0x63, 0x01, 0x03] ∧
    fourthQueued.world.server.vserialOutbox 1 = [0x41, 0x42, 0x43, 0x44] ∧
    Run sendSystem nothingSent fourthQueued tr' c' ∧
    c'.world.net.1.taken 0x01 = [0x41, 0x42, 0x43, 0x44] ∧
    ∃ k ≤ 4, c'.world.net.1.replies[1 + k]? = some (0x00, 0x00) := by
  have hmeets : ∀ l ∈ fourthLabels, ¬ Sends lastChannel l := by
    intro l hl hsends
    have hnone : fourthLabels.all (fun l => sentTo l ≠ some lastChannel) = true := rfl
    exact of_decide_eq_true (List.all_eq_true.mp hnone l hl) (sentTo_of_sends hsends)
  have hrun := fourthQueued_run.meets hmeets
  obtain ⟨-, -, -, -, hpoll⟩ := @poll_loop Unit Unit Bool noDisk asciiTables sender.env 0
    threeQueued () false rfl _ _ hrun
  have hfree : fourthQueued.world.holders .vserialOutbox = [] := rfl
  obtain ⟨tr', c', hrun', hemptied⟩ := hpoll (by
    intro x hx
    rw [hfree] at hx
    cases hx)
  have htotal : total fourthQueued.world.server.vserialOutbox = 4 := rfl
  have hfound := hemptied.found
  rw [htotal] at hfound
  exact ⟨tr', c', hrun, rfl, rfl, hrun', hemptied.taken 1, hfound⟩

end DriveWire
