import DriveWire.Server.Script
import DriveWire.Server.Sessions
import DriveWire.Server.Talk

/-! # The Length of Every Reply

    A guest finds the end of a reply by counting.  In every interleaving a
    session makes the turns of its dialogue, so two sessions that are sent
    the same bytes divide them into the same commands, and write equally
    many bytes after each of them, whatever else their servers do.  When both
    wait for more, they have made the same turns. -/

namespace DriveWire

open Async Server Solo Dialogue

variable {D F N : Type}

/-! ## Section 1: The turns of a session -/

/-- What the transport sees of an event. -/
def turnOf : Event (Eff.Res (D := D)) → Option (Turn UInt8)
  | ⟨.io (.readExact _), .ok v⟩ => some (.got v.toList)
  | ⟨.io (.writeAll bs), .ok ()⟩ => some (.put bs.length)
  | _ => none

def turnsOf (es : List (Event (Eff.Res (D := D)))) : List (Turn UInt8) := es.filterMap turnOf

@[simp] theorem turnsOf_snoc (es : List (Event (Eff.Res (D := D)))) (ev : Event Eff.Res) :
    turnsOf (es ++ [ev]) = turnsOf es ++ (turnOf ev).toList := by
  rw [turnsOf, List.filterMap_append]
  cases h : turnOf ev <;> simp [turnsOf, h]

@[simp] theorem turnsOf_flatten (ess : List (List (Event (Eff.Res (D := D))))) :
    turnsOf ess.flatten = ess.flatMap turnsOf := by
  induction ess with
  | nil => rfl
  | cons es ess ih => simp [turnsOf, List.flatMap_cons] at ih ⊢; rw [ih]

theorem next_not_mem_turnsOf (es : List (Event (Eff.Res (D := D)))) : .next ∉ turnsOf es := by
  intro h
  obtain ⟨ev, -, hev⟩ := List.mem_filterMap.mp h
  unfold turnOf at hev
  split at hev <;> simp at hev

/-- The turns `ts` of the current iteration have led to this stage. -/
def Stage.Said (ts : List (Turn UInt8)) : Stage → Prop
  | .talk _ _ d => Path session session ts d
  | .failed _ _ => ∃ d, Path session session ts d

/-- One event of a session is at most one turn of its dialogue. -/
theorem Stage.Said.next {ts : List (Turn UInt8)} {s : Stage} (h : s.Said ts) {e : Eff D}
    (hallow : s.Allows e) (r : e.Res) : (s.next e r).Said (ts ++ (turnOf ⟨e, r⟩).toList) := by
  cases s with
  | failed held x =>
    obtain ⟨l, rfl, -⟩ := hallow
    show Stage.Said (ts ++ []) (.failed none x)
    rwa [List.append_nil]
  | talk first held d =>
    have hpath : Path session session ts d := h
    -- only reads and writes that succeed are turns
    cases e with
    | io i =>
      cases i with
      | readExact n =>
        obtain ⟨-, k, rfl⟩ := hallow
        cases r with
        | error x => exact ⟨_, by simpa [turnOf] using hpath⟩
        | ok v => exact hpath.append (.got v.length_toList (.refl _))
      | writeAll bs =>
        obtain ⟨d', rfl⟩ := hallow
        cases r with
        | error x => exact ⟨_, by simpa [turnOf] using hpath⟩
        | ok u => exact hpath.append (.put (.refl _))
      | read n => exact hallow.elim
      | nextLine => exact hallow.elim
      | nextCall => exact hallow.elim
    | lock | unlock | op | sys | notifyOne | notified | never | spawn | select =>
      show Path session session (ts ++ []) d
      rwa [List.append_nil]

/-- What a part of an iteration has said. -/
theorem said_after {es : List (Event (Eff.Res (D := D)))} {p : Code D (Flow Exit)}
    (h : Prog.Walk guestOnce es p) :
    (Prog.after talks (.talk true none session) es).Said (turnsOf es) := by
  induction h with
  | refl => exact Dialogue.Path.refl _
  | @snoc es e k r hwalk ih =>
    have hobeys := hwalk.obeys (fun _ _ _ => trivial) guestOnce_talks
    rw [Prog.after_snoc, turnsOf_snoc]
    exact ih.next hobeys.1 r

/-- A part of an iteration follows the dialogue. -/
theorem path_turnsOf {es : List (Event (Eff.Res (D := D)))} {p : Code D (Flow Exit)}
    (h : Prog.Walk guestOnce es p) : ∃ d, Path session session (turnsOf es) d := by
  have hsaid := said_after h
  generalize Prog.after talks (.talk true none session) es = s at hsaid
  cases s with
  | talk first held d => exact ⟨d, hsaid⟩
  | failed held x => exact hsaid

/-- A whole iteration says all of it. -/
theorem path_turnsOf_done {es : List (Event (Eff.Res (D := D)))}
    (h : Prog.Walk guestOnce es (.ret .again)) : Path session session (turnsOf es) .done := by
  have hsaid := said_after h
  have hleave : Prog.after talks (.talk true none session) es = .talk false none .done :=
    h.obeys (fun _ _ _ => trivial) guestOnce_talks
  rwa [hleave] at hsaid

/-- An iteration that waits for `n` bytes has said everything that comes
    before them. -/
theorem path_turnsOf_waits {es : List (Event (Eff.Res (D := D)))} {n : Nat}
    {f : Except IoError (Vector UInt8 n) → Code D (Flow Exit)}
    (h : Prog.Walk guestOnce es (.eff (.io (.readExact n)) f)) :
    ∃ k, Path session session (turnsOf es) (.get n k) := by
  have hsaid := said_after h
  have hallow := (h.obeys (fun _ _ _ => trivial) guestOnce_talks).1
  generalize Prog.after talks (.talk true none session) es = s at hsaid hallow
  cases s with
  | talk first held d =>
    obtain ⟨-, k, rfl⟩ := hallow
    exact ⟨k, hsaid⟩
  | failed held x =>
    obtain ⟨l, heq, -⟩ := hallow
    cases heq

/-! ## Section 2: The replies to a command -/

/-- The replies to an opcode with its payload: how many bytes have been read
    when a reply is sent, and how many it has. -/
def repliesOf : Decoded → List UInt8 → List (Nat × Nat)
  | .op .read, _ | .op .reread, _ => [(5, 258)]
  | .op .readEx, _ | .op .rereadEx, _ => [(5, 256), (7, 1)]
  | .op .write, _ | .op .rewrite, _ => [(263, 1)]
  | .op .dwInit, _ => [(2, 1)]
  | .op .time, _ => [(1, 6)]
  | .op .serRead, _ => [(1, 2)]
  | .op .serReadM, payload => [(3, (payload.getD 1 0).toNat)]
  | _, _ => []

/-- How many bytes are sent to a guest that has sent `p` bytes of a command. -/
def replyAt (c : Command) (p : Nat) : Nat :=
  ((repliesOf (Decoded.fromByte c.opcode) c.payload).map fun r => if r.1 = p then r.2 else 0).sum

theorem sentAt_arm (d : Decoded) (payload : List UInt8) (p : Nat)
    (h : payload.length = (Decoded.payload d).length payload) :
    sentAt p 1 ((arm d).turns payload) =
      ((repliesOf d payload).map fun r => if r.1 = p then r.2 else 0).sum := by
  cases d with
  | unknown b => rfl
  | fastWrite c => rfl
  | op o =>
    -- the commands with a reply; each is sent after the part of the payload before it
    cases o with
    | read | reread =>
      have hlen : payload.length = 4 := h
      have harm : arm (.op .read) = .get 4 fun _ => .put 256 (.put 2 .done) := rfl
      show sentAt p 1 ((arm (.op .read)).turns payload) = _
      simp [harm, turns, sentAt, repliesOf, hlen]
      split <;> rfl
    | readEx | rereadEx =>
      have hlen : payload.length = 6 := h
      have harm : arm (.op .readEx) =
          .get 4 fun _ => .put 256 (.get 2 fun _ => .put 1 .done) := rfl
      show sentAt p 1 ((arm (.op .readEx)).turns payload) = _
      simp [harm, turns, sentAt, repliesOf, hlen]
    | write | rewrite =>
      have hlen : payload.length = 262 := h
      have harm : arm (.op .write) =
          .get 4 fun _ => .get 256 fun _ => .get 2 fun _ => .put 1 .done := rfl
      show sentAt p 1 ((arm (.op .write)).turns payload) = _
      simp [harm, turns, sentAt, repliesOf, hlen]
    | dwInit =>
      have hlen : payload.length = 1 := h
      have harm : arm (.op .dwInit) = .get 1 fun _ => .put 1 .done := rfl
      simp [harm, turns, sentAt, repliesOf, hlen]
    | serReadM =>
      have hlen : payload.length = 2 := h
      have harm : arm (.op .serReadM) = .get 2 fun p => .put (p.getD 1 0).toNat .done := rfl
      simp [harm, turns, sentAt, repliesOf, hlen]
    | time | serRead => rfl
    | serSetStat =>
      have harm : arm (.op .serSetStat) = .get 2 fun p =>
        if p.getD 1 0 = Ss.comst then .get Ss.comstPayloadLen fun _ => .done else .done := rfl
      rw [harm, turns]
      split <;> rfl
    | _ => rfl

/-- **The reply to one command.** A whole iteration of the loop reads the
    bytes of one command, and sends its replies where they belong. -/
theorem iteration_command {es : List (Event (Eff.Res (D := D)))}
    (h : Prog.Walk guestOnce es (.ret .again)) :
    ∃ c : Command, input (turnsOf es) = c.bytes ∧
      ∀ p, sentAt p 0 (turnsOf es) = replyAt c p := by
  obtain ⟨hfeed, hturns⟩ := (path_turnsOf_done h).complete rfl (next_not_mem_turnsOf es)
  generalize input (turnsOf es) = bytes at hfeed hturns
  rw [hturns]
  cases bytes with
  | nil => cases hfeed
  | cons b payload =>
    have harm : (arm (Decoded.fromByte b)).feed payload = some [] := hfeed
    have hcomplete := (feed_arm _ _).mp harm
    refine ⟨⟨b, payload, by rw [payloadOf_fromByte]; exact hcomplete⟩, rfl, fun p => ?_⟩
    exact sentAt_arm _ payload p hcomplete

/-! ## Section 3: One session -/

/-- The current iteration has led to the state of the task. -/
def LeadsTo (cur : List (Event (Eff.Res (D := D)))) : Task (Eff D) Eff.Res Exit → Prop
  | .idle => cur = []
  | .live p => Prog.Walk guestOnce cur p
  | .exited r => Prog.Walk guestOnce cur (.ret (.done r))

/-- The events of a session are those of the iterations of its loop: the
    finished ones, and the current one. -/
structure Rounds (es : List (Event (Eff.Res (D := D)))) (x : Task (Eff D) Eff.Res Exit)
    (rounds : List (List (Event (Eff.Res (D := D))))) (cur : List (Event (Eff.Res (D := D)))) :
    Prop where
  all   : es = rounds.flatten ++ cur
  whole : ∀ b ∈ rounds, Prog.Walk guestOnce b (.ret .again)
  part  : LeadsTo cur x

/-- The turns of a session, with the ends of its commands marked. -/
def transcript (rounds : List (List (Event (Eff.Res (D := D)))))
    (cur : List (Event (Eff.Res (D := D)))) : List (Turn UInt8) :=
  rounds.flatMap (fun b => turnsOf b ++ [.next]) ++ turnsOf cur

/-- The session waits for bytes from its guest. -/
def Listens (x : Task (Eff D) Eff.Res Exit) : Prop :=
  ∃ n f, 0 < n ∧ x = .live (.eff (.io (.readExact n)) f)

section rounds

variable {es cur : List (Event (Eff.Res (D := D)))} {x : Task (Eff D) Eff.Res Exit}
variable {rounds : List (List (Event (Eff.Res (D := D))))}

theorem Rounds.walk (h : Rounds es x rounds cur) : ∃ p, Prog.Walk guestOnce cur p := by
  have hpart := h.part
  cases x with
  | idle =>
    have hnone : cur = [] := hpart
    rw [hnone]
    exact ⟨_, .refl _⟩
  | live p => exact ⟨p, hpart⟩
  | exited r => exact ⟨_, hpart⟩

theorem Rounds.append (h : Rounds es x rounds cur) {d : Dialogue UInt8}
    (hcur : Path session session (turnsOf cur) d) :
    Path session session (transcript rounds cur) d := by
  have hrounds : ∀ ts ∈ rounds.map turnsOf, Path session session ts .done := by
    intro ts hts
    obtain ⟨b, hb, rfl⟩ := List.mem_map.mp hts
    exact path_turnsOf_done (h.whole b hb)
  have hpath := Path.rounds hrounds hcur
  rwa [List.flatMap_map] at hpath

theorem Rounds.path (h : Rounds es x rounds cur) :
    ∃ d, Path session session (transcript rounds cur) d := by
  obtain ⟨p, hcur⟩ := h.walk
  obtain ⟨d, hd⟩ := path_turnsOf hcur
  exact ⟨d, h.append hd⟩

theorem Rounds.path_listens (h : Rounds es x rounds cur) (hwaits : Listens x) :
    ∃ n k, 0 < n ∧ Path session session (transcript rounds cur) (.get n k) := by
  obtain ⟨n, f, hn, rfl⟩ := hwaits
  obtain ⟨k, hk⟩ := path_turnsOf_waits h.part
  exact ⟨n, k, hn, h.append hk⟩

/-- The marks are no input. -/
theorem Rounds.input (h : Rounds es x rounds cur) :
    input (transcript rounds cur) = Dialogue.input (turnsOf es) := by
  have hmarks : Dialogue.input (rounds.flatMap fun b => turnsOf b ++ [.next]) =
      Dialogue.input (rounds.flatMap turnsOf) := by
    clear h
    induction rounds with
    | nil => rfl
    | cons b rounds ih => simp [List.flatMap_cons, ih, Dialogue.input]
  have hes : turnsOf es = rounds.flatMap turnsOf ++ turnsOf cur := by
    rw [h.all, turnsOf, List.filterMap_append]
    exact congrArg (· ++ turnsOf cur) (turnsOf_flatten rounds)
  rw [transcript, input_append, hmarks, hes, input_append]

end rounds

/-- The complete commands of a session get the replies of `replyAt`. -/
def InStep (rounds : List (List (Event (Eff.Res (D := D))))) : Prop :=
  ∀ b ∈ rounds, ∃ c : Command, input (turnsOf b) = c.bytes ∧
    ∀ p, sentAt p 0 (turnsOf b) = replyAt c p

/-- A session in the state `x` keeps its place. -/
structure KeepsPlace (es : List (Event (Eff.Res (D := D)))) (x : Task (Eff D) Eff.Res Exit) :
    Prop where
  rounds : ∃ rounds cur, Rounds es x rounds cur
  inStep : ∀ rounds cur, Rounds es x rounds cur → InStep rounds
  /-- It is held up by its transport, the locks, the disks and the clock only, -/
  goesOn : ∀ e k, x = .live (.eff e k) → GuestEff e
  /-- and ends only when its transport has failed. -/
  ends   : ∀ r, x = .live (.ret (.done r)) ∨ x = .exited r →
    ∃ e, r = .session e ∧ ∃ ev ∈ es, FailsWith e ev

section runs

variable [VDisk D] [UnicodeTables]

/-- The events of a guest session in a run are iterations of its loop. -/
theorem run_rounds {env : Env D F N} {w : World D F N} {c : SysConfig D F N}
    {tr : List (SysLabel D)} (h : Run (system env) anyStep (Config.initial w) tr c) (n : Nat) :
    ∃ rounds cur, Rounds (eventsOf (.guest n) tr) (c.task (.guest n)) rounds cur := by
  have hloops := h.loops (.guest n)
  generalize c.task (.guest n) = x at hloops ⊢
  cases x with
  | idle =>
    have hnil : eventsOf (.guest n) tr = [] := hloops
    exact ⟨[], [], hnil, by simp, rfl⟩
  | live p =>
    obtain ⟨rounds, cur, hall, hwhole, hpart⟩ := hloops
    exact ⟨rounds, cur, hall, hwhole, hpart⟩
  | exited r =>
    obtain ⟨rounds, cur, hall, hwhole, hpart⟩ := hloops
    exact ⟨rounds, cur, hall, hwhole, hpart⟩

/-- **Every guest session keeps its place**, in every run. -/
theorem run_keepsPlace {env : Env D F N} {w : World D F N} {c : SysConfig D F N}
    {tr : List (SysLabel D)} (h : Run (system env) anyStep (Config.initial w) tr c) (n : Nat) :
    KeepsPlace (eventsOf (.guest n) tr) (c.task (.guest n)) where
  rounds := run_rounds h n
  inStep := fun rounds cur hrounds b hb => iteration_command (hrounds.whole b hb)
  goesOn := by
    intro e k hlive
    obtain ⟨rounds, cur, hrounds⟩ := run_rounds h n
    have hcur := hrounds.part
    rw [hlive] at hcur
    exact (Prog.Walk.obeys hcur (fun _ _ _ => trivial) guestOnce_only).1
  ends := by
    intro r hend
    obtain ⟨rounds, cur, hrounds⟩ := run_rounds h n
    have hcur : Prog.Walk guestOnce cur (.ret (.done r)) := by
      have hpart := hrounds.part
      rcases hend with hlive | hexited
      · rwa [hlive] at hpart
      · rwa [hexited] at hpart
    obtain ⟨e, hr, ev, hev, hfails⟩ := guestOnce_done hcur
    refine ⟨e, hr, ev, ?_, hfails⟩
    rw [hrounds.all]
    exact List.mem_append_right _ hev

end runs

/-! ## Section 4: Two sessions -/

/-- Two sessions make the same turns and end their commands at the same
    bytes, as far as both get.  One that waits for input has made all turns
    that the other makes on what it has read. -/
structure SameTurns {D₁ D₂ : Type} (es₁ : List (Event (Eff.Res (D := D₁))))
    (x₁ : Task (Eff D₁) Eff.Res Exit) (es₂ : List (Event (Eff.Res (D := D₂))))
    (x₂ : Task (Eff D₂) Eff.Res Exit) : Prop where
  first  : KeepsPlace es₁ x₁
  second : KeepsPlace es₂ x₂
  turns  : ∀ rounds₁ cur₁ rounds₂ cur₂, Rounds es₁ x₁ rounds₁ cur₁ → Rounds es₂ x₂ rounds₂ cur₂ →
    (transcript rounds₁ cur₁ <+: transcript rounds₂ cur₂ ∨
      transcript rounds₂ cur₂ <+: transcript rounds₁ cur₁) ∧
    (Listens x₁ → input (turnsOf es₂) <+: input (turnsOf es₁) →
      transcript rounds₂ cur₂ <+: transcript rounds₁ cur₁) ∧
    (Listens x₂ → input (turnsOf es₁) <+: input (turnsOf es₂) →
      transcript rounds₁ cur₁ <+: transcript rounds₂ cur₂) ∧
    (Listens x₁ → Listens x₂ → input (turnsOf es₁) = input (turnsOf es₂) →
      transcript rounds₁ cur₁ = transcript rounds₂ cur₂)

/-- A session that waits for input is ahead of every session on its input. -/
theorem Rounds.ahead {D₁ D₂ : Type} {es₁ cur₁ : List (Event (Eff.Res (D := D₁)))}
    {x₁ : Task (Eff D₁) Eff.Res Exit} {rounds₁ : List (List (Event (Eff.Res (D := D₁))))}
    {es₂ cur₂ : List (Event (Eff.Res (D := D₂)))} {x₂ : Task (Eff D₂) Eff.Res Exit}
    {rounds₂ : List (List (Event (Eff.Res (D := D₂))))} (h₁ : Rounds es₁ x₁ rounds₁ cur₁)
    (h₂ : Rounds es₂ x₂ rounds₂ cur₂) (hwaits : Listens x₁)
    (hin : Dialogue.input (turnsOf es₂) <+: Dialogue.input (turnsOf es₁)) :
    transcript rounds₂ cur₂ <+: transcript rounds₁ cur₁ := by
  obtain ⟨n, k, hn, hpath₁⟩ := h₁.path_listens hwaits
  obtain ⟨d₂, hpath₂⟩ := h₂.path
  rw [← h₁.input, ← h₂.input] at hin
  exact hpath₁.ahead rfl hn hpath₂ hin

/-- **Reply lengths depend only on what the guest sent.** Take any two runs
    of any two servers, with everything their other sessions do, and a guest
    session of each.  If both have been sent parts of one stream, they make
    the same turns. -/
theorem same_turns {D₁ F₁ N₁ D₂ F₂ N₂ : Type} [VDisk D₁] [VDisk D₂] [UnicodeTables]
    (env₁ : Env D₁ F₁ N₁) (env₂ : Env D₂ F₂ N₂) {w₁ : World D₁ F₁ N₁} {w₂ : World D₂ F₂ N₂}
    {c₁ : SysConfig D₁ F₁ N₁} {c₂ : SysConfig D₂ F₂ N₂} {tr₁ : List (SysLabel D₁)}
    {tr₂ : List (SysLabel D₂)} (n₁ n₂ : Nat)
    (hrun₁ : Run (system env₁) anyStep (Config.initial w₁) tr₁ c₁)
    (hrun₂ : Run (system env₂) anyStep (Config.initial w₂) tr₂ c₂) (stream : List UInt8)
    (hin₁ : input (turnsOf (eventsOf (.guest n₁) tr₁)) <+: stream)
    (hin₂ : input (turnsOf (eventsOf (.guest n₂) tr₂)) <+: stream) :
    SameTurns (eventsOf (.guest n₁) tr₁) (c₁.task (.guest n₁)) (eventsOf (.guest n₂) tr₂)
      (c₂.task (.guest n₂)) := by
  refine ⟨run_keepsPlace hrun₁ n₁, run_keepsPlace hrun₂ n₂,
    fun rounds₁ cur₁ rounds₂ cur₂ h₁ h₂ => ⟨?_, h₁.ahead h₂, h₂.ahead h₁, ?_⟩⟩
  · obtain ⟨d₁, hpath₁⟩ := h₁.path
    obtain ⟨d₂, hpath₂⟩ := h₂.path
    rw [← h₁.input] at hin₁
    rw [← h₂.input] at hin₂
    exact hpath₁.comparable hpath₂ hin₁ hin₂
  · intro hwaits₁ hwaits₂ hsame
    have hle₂ := h₁.ahead h₂ hwaits₁ (hsame ▸ List.prefix_rfl)
    have hle₁ := h₂.ahead h₁ hwaits₂ (hsame ▸ List.prefix_rfl)
    exact hle₁.eq_of_length (le_antisymm hle₁.length_le hle₂.length_le)

/-- Peers that are scripted, and a disk that holds one and the same sector
    everywhere. -/
def oneSector : Answers Unit Unit (Tid → Peer) where
  net := fun t i n => (((n t).answer i).1, Function.update n t ((n t).answer i).2)
  sys := fun y f =>
    match y with
    | .diskRead _ _ => (.ok (Vector.replicate sectorSize 0xAA), f)
    | y => (y.answer, f)

/-- READ from drive 0, and three bytes of channel 1. -/
def readAndPoll : List UInt8 := [0x52, 0x00, 0x00, 0x00, 0x00, 0x63, 0x01, 0x03]

/-- A server with a disk, and two bytes for the guest. -/
def stocked : Server Unit :=
  { Server.new Unit with
    drives        := Function.update (fun _ => none) 0 (some ())
    vserialOutbox := Function.update (fun _ => []) 1 [0x07, 0x08] }

/-- The server `s` when its guest sends these commands. -/
def pollStart (s : Server Unit) : SysConfig Unit Unit (Tid → Peer) :=
  Config.initial (World.initial s () fun _ => .sending readAndPoll)

def pollState (s : Server Unit) (turns : Nat) : SysConfig Unit Unit (Tid → Peer) :=
  @Answers.play Unit Unit (Tid → Peer) oneSector noDisk asciiTables (pollStart s)
    (List.replicate turns (.guest 0))

def pollLabels (s : Server Unit) (turns : Nat) : List (SysLabel Unit) :=
  @Answers.labels Unit Unit (Tid → Peer) oneSector noDisk asciiTables (pollStart s)
    (List.replicate turns (.guest 0))

theorem pollState_run (s : Server Unit) (turns : Nat) :
    Run (plainSystem oneSector.env) anyStep (pollStart s) (pollLabels s turns)
      (pollState s turns) :=
  @Answers.play_run Unit Unit (Tid → Peer) oneSector noDisk asciiTables _ _

set_option maxRecDepth 100000 in
theorem pollState_stocked : ((pollState stocked 18).world.net (.guest 0)).received =
    List.replicate 256 0xAA ++ [0xAA, 0x00] ++ [0x07, 0x08, 0x00] := rfl

set_option maxRecDepth 100000 in
theorem pollState_new : ((pollState (Server.new Unit) 17).world.net (.guest 0)).received =
    List.replicate 256 0x00 ++ [0x00, 0x00] ++ [0x00, 0x00, 0x00] := rfl

/-- One server reads the sector from its disk and has two bytes for the guest.
    The other one has neither.  Both sessions wait for the next command and
    have made the same turns, with other bytes. -/
theorem same_turns_stocked :
    ((pollState stocked 18).world.net (.guest 0)).received =
      List.replicate 256 0xAA ++ [0xAA, 0x00] ++ [0x07, 0x08, 0x00] ∧
    ((pollState (Server.new Unit) 17).world.net (.guest 0)).received =
      List.replicate 256 0x00 ++ [0x00, 0x00] ++ [0x00, 0x00, 0x00] ∧
    ∃ rounds₁ cur₁ rounds₂ cur₂,
      Rounds (eventsOf (.guest 0) (pollLabels stocked 18))
        ((pollState stocked 18).task (.guest 0)) rounds₁ cur₁ ∧
      Rounds (eventsOf (.guest 0) (pollLabels (Server.new Unit) 17))
        ((pollState (Server.new Unit) 17).task (.guest 0)) rounds₂ cur₂ ∧
      transcript rounds₁ cur₁ = transcript rounds₂ cur₂ := by
  have hwaits₁ : Listens ((pollState stocked 18).task (.guest 0)) := ⟨1, _, Nat.one_pos, rfl⟩
  have hwaits₂ : Listens ((pollState (Server.new Unit) 17).task (.guest 0)) :=
    ⟨1, _, Nat.one_pos, rfl⟩
  have hin₁ : input (turnsOf (eventsOf (.guest 0) (pollLabels stocked 18))) = readAndPoll := rfl
  have hin₂ : input (turnsOf (eventsOf (.guest 0) (pollLabels (Server.new Unit) 17))) =
      readAndPoll := rfl
  have hsame := @same_turns Unit Unit (Tid → Peer) Unit Unit (Tid → Peer) noDisk noDisk asciiTables
    oneSector.env oneSector.env _ _ _ _ _ _ 0 0 (pollState_run stocked 18)
    (pollState_run (Server.new Unit) 17) readAndPoll (hin₁ ▸ List.prefix_rfl)
    (hin₂ ▸ List.prefix_rfl)
  obtain ⟨rounds₁, cur₁, h₁⟩ := hsame.first.rounds
  obtain ⟨rounds₂, cur₂, h₂⟩ := hsame.second.rounds
  obtain ⟨-, -, -, hrest⟩ := hsame.turns _ _ _ _ h₁ h₂
  exact ⟨pollState_stocked, pollState_new, rounds₁, cur₁, rounds₂, cur₂, h₁, h₂,
    hrest hwaits₁ hwaits₂ (hin₁.trans hin₂.symm)⟩

end DriveWire
