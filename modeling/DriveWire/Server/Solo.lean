import DriveWire.Server.Script

/-! # A Session on Its Own

    One guest session on a wire, against a server that no other task uses.
    Disks, files and clock are a deterministic machine, so the session is a
    computation; `Solo.run_of_eval` makes it a run of the system. -/

namespace DriveWire

open Async

/-! ## Section 1: The machine -/

/-- What a session has still to read, and what it has written. -/
structure Wire where
  input  : List UInt8
  output : List UInt8

/-- Disks, file system and clock as a state machine on `F`. -/
abbrev Host (D F : Type) : Type := (s : Sys D) → F → s.Res × F

/-- `read_exact` and `write_all` on a wire.  The end of the input is
    reported if `eof` is set, and waited at otherwise. -/
def Wire.answer (eof : Bool) : (i : Io) → Wire → Option (i.Res × Wire)
  | .readExact n, w =>
    if h : n ≤ w.input.length then
      some (.ok (takeVector n w.input h), { w with input := w.input.drop n })
    else if eof then some (.error earlyEof, { w with input := [] })
    else none
  | .writeAll bs, w => some (.ok (), { w with output := w.output ++ bs })
  | _, _ => none

namespace Solo

variable {D F : Type}

/-- The answers to the effects of a guest session `t`. -/
def answer (host : Host D F) (eof : Bool) (t : Tid) :
    (e : Eff D) → World D F Wire → Option (e.Res × World D F Wire)
  | .io i, w => (w.net.answer eof i).map fun x => (x.1, { w with net := x.2 })
  | .sys s, w => some ((host s w.sys).1, { w with sys := (host s w.sys).2 })
  | .lock l m, w => if w.holders l = [] then some ((), w.acquire t l m) else none
  | .unlock l, w => some ((), w.release t l)
  | .op o, w => some ((o.run w.server).1, { w with server := (o.run w.server).2 })
  | .notifyOne c, w =>
    some ((), { w with notify := Function.update w.notify c (w.notify c).notifyOne })
  | .notified _, _ | .never, _ | .spawn _, _ | .select _ _, _ => none

/-- The environment that behaves like the machine. -/
def env (host : Host D F) : Env D F Wire where
  net := fun _ i n r n' => ∃ x, n.answer true i = some (x, n') ∧ r = .ready x
  sys := fun _ s f r f' => r = .ready (host s f).1 ∧ f' = (host s f).2
  connect := fun _ _ => True
  netStep := fun _ _ => False

/-- Every answer of the machine is one that the system can give. -/
theorem answer_poll (host : Host D F) (t : Tid) (e : Eff D) (w : World D F Wire) (r : e.Res)
    (w' : World D F Wire) (h : answer host true t e w = some (r, w')) :
    poll (env host) t e w (.ready r) w' := by
  -- effects that need another task have no answer here
  cases e with
  | io i =>
    obtain ⟨⟨x, n⟩, hx, heq⟩ := Option.map_eq_some_iff.mp h
    cases heq
    exact ⟨n, ⟨x, hx, rfl⟩, rfl⟩
  | sys s =>
    cases h
    exact ⟨_, ⟨rfl, rfl⟩, rfl⟩
  | lock l m =>
    by_cases hl : w.holders l = []
    · rw [answer, if_pos hl] at h
      cases h
      exact .inr ⟨World.free_of_nil hl m, rfl, rfl⟩
    · rw [answer, if_neg hl] at h
      cases h
  | unlock l => cases h; exact ⟨rfl, rfl⟩
  | op o => cases h; exact ⟨rfl, rfl⟩
  | notifyOne c => cases h; exact ⟨rfl, rfl⟩
  | notified c => cases h
  | never => cases h
  | spawn u => cases h
  | select u v => cases h

theorem answer_writesSucceed (host : Host D F) (eof : Bool) (t : Tid) (c : SysConfig D F Wire)
    (e : Eff D) (r : e.Res) (w : World D F Wire)
    (h : answer host eof t e c.world = some (r, w)) : writesSucceed c (t, ⟨e, r⟩) := by
  cases e with
  | io i =>
    cases i with
    | writeAll bs => cases h; rfl
    | _ => trivial
  | _ => trivial

/-- A computation of the machine is a run of the system. -/
theorem run_of_eval [VDisk D] [UnicodeTables] (host : Host D F) (t : Tid)
    {p : Code D (Flow Exit)} {a : Flow Exit} {c₀ c : SysConfig D F Wire} {tr : List (SysLabel D)}
    {w : World D F Wire} (hrun : Run (system (env host)) writesSucceed c₀ tr c)
    (ht : c.task t = .live p) (hp : p.eval (answer host true t) c.world = some (a, w)) :
    ∃ tr', Run (system (env host)) writesSucceed c₀ tr' (c.put t (.live (.ret a)) w) :=
  Run.of_eval (answer_poll host t) (answer_writesSucceed host true t) hrun ht hp

/-! ## Section 2: More input does not matter

    A program that never meets the end of its input does the same when more
    input follows, and leaves it unread. -/

def feed (w : World D F Wire) (rest out : List UInt8) : World D F Wire :=
  { w with net := ⟨w.net.input ++ rest, out ++ w.net.output⟩ }

theorem answer_feed (host : Host D F) (eof : Bool) (t : Tid) (e : Eff D) (w : World D F Wire)
    (rest out : List UInt8) (r : e.Res) (w' : World D F Wire)
    (h : answer host false t e w = some (r, w')) :
    answer host eof t e (feed w rest out) = some (r, feed w' rest out) := by
  cases e with
  | io i =>
    obtain ⟨⟨x, n⟩, hx, heq⟩ := Option.map_eq_some_iff.mp h
    cases heq
    cases i with
    | readExact k =>
      by_cases hk : k ≤ w.net.input.length
      · simp only [Wire.answer, dif_pos hk] at hx
        cases hx
        -- a read that the first input satisfies takes nothing of the rest
        have hk' : k ≤ (w.net.input ++ rest).length := by simp; omega
        have htake : takeVector k (w.net.input ++ rest) hk' = takeVector k w.net.input hk := by
          apply Vector.toList_inj.mp
          simp [List.take_append_of_le_length hk]
        simp [answer, Wire.answer, feed, dif_pos hk', htake, List.drop_append_of_le_length hk]
      · simp [Wire.answer, hk] at hx
    | writeAll bs =>
      cases hx
      simp [answer, Wire.answer, feed]
    | read k => cases hx
    | nextLine => cases hx
    | nextCall => cases hx
  | lock l m =>
    by_cases hl : w.holders l = []
    · rw [answer, if_pos hl] at h
      cases h
      simp [answer, feed, hl, World.acquire]
    · rw [answer, if_neg hl] at h
      cases h
  | sys s => cases h; rfl
  | unlock l => cases h; rfl
  | op o => cases h; rfl
  | notifyOne c => cases h; rfl
  | notified c => cases h
  | never => cases h
  | spawn u => cases h
  | select u v => cases h

theorem eval_feed (host : Host D F) (eof : Bool) (t : Tid) {α : Type} {p : Code D α} {a : α}
    {w w' : World D F Wire} (rest out : List UInt8)
    (h : p.eval (answer host false t) w = some (a, w')) :
    p.eval (answer host eof t) (feed w rest out) = some (a, feed w' rest out) := by
  induction p generalizing w with
  | ret b =>
    rw [Prog.eval_ret] at h
    cases h
    rfl
  | eff e k ih =>
    rw [Prog.eval_eff] at h
    obtain ⟨⟨r, w₁⟩, hr, hk⟩ := Option.bind_eq_some_iff.mp h
    rw [Prog.eval_eff, answer_feed host eof t e w rest out r w₁ hr]
    exact ih r hk

/-! ## Section 3: Evaluating handlers -/

/-- What is left of the server's world between two commands. -/
structure State (D F : Type) where
  server : Server D
  notify : Channel → Notify
  sys    : F

/-- The world of a session that holds no lock. -/
def State.world (s : State D F) (wire : Wire) : World D F Wire where
  server  := s.server
  holders := fun _ => []
  notify  := s.notify
  sys     := s.sys
  net     := wire
  spawned := []
  exited  := []

variable (host : Host D F) (eof : Bool) (t : Tid) {α β : Type}

theorem eval_guarded (m : Mode) (o : Op D) (s : State D F) (wire : Wire) :
    (guarded m o).eval (answer host eof t) (s.world wire) =
      some ((o.run s.server).1, { s with server := (o.run s.server).2 }.world wire) := by
  simp [guarded_eq, answer, State.world, World.acquire, World.release]

variable {host eof t}

theorem eval_call_bind {c : Code D α} {f : α → Handler D β} {w w' : World D F Wire} {a : α}
    (hc : c.eval (answer host eof t) w = some (a, w')) :
    (call c >>= f).run.eval (answer host eof t) w = (f a).run.eval (answer host eof t) w' := by
  rw [run_call_bind, Prog.eval_bind, hc]
  rfl

theorem eval_call {c : Code D α} {w w' : World D F Wire} {a : α}
    (hc : c.eval (answer host eof t) w = some (a, w')) :
    (call c).run.eval (answer host eof t) w = some (.ok a, w') := by
  rw [run_call, Prog.eval_bind, hc]
  rfl

theorem eval_readExact_bind (n : Nat) (f : Vector UInt8 n → Handler D β) (s : State D F)
    (input out : List UInt8) (h : n ≤ input.length) :
    (readExact n >>= f).run.eval (answer host eof t) (s.world ⟨input, out⟩) =
      (f (takeVector n input h)).run.eval (answer host eof t)
        (s.world ⟨input.drop n, out⟩) := by
  rw [run_readExact_bind]
  simp [answer, State.world, Wire.answer, h]

theorem eval_writeAll_bind (bs : List UInt8) (f : Unit → Handler D β) (s : State D F)
    (input out : List UInt8) :
    (writeAll bs >>= f).run.eval (answer host eof t) (s.world ⟨input, out⟩) =
      (f ()).run.eval (answer host eof t) (s.world ⟨input, out ++ bs⟩) := by
  rw [run_writeAll_bind]
  simp [answer, State.world, Wire.answer]

theorem eval_writeAll (bs : List UInt8) (s : State D F) (input out : List UInt8) :
    (writeAll bs).run.eval (answer host eof t) (s.world ⟨input, out⟩) =
      some (.ok (), s.world ⟨input, out ++ bs⟩) := by
  rw [run_writeAll]
  simp [answer, State.world, Wire.answer]

/-- A host whose disks fail to read. -/
def failingHost : Host Unit Unit
  | .diskRead _ lsn, f => (.error (.outOfRange lsn), f)
  | .diskWrite _ _ _, f => (.ok (), f)
  | .diskOpen _ _, f => (.ok (), f)
  | .nowLocal, f => (none, f)
  | .nowUtc, f => (⟨1970, 1, 1, 0, 0, 0⟩, f)

end Solo

end DriveWire
