import DriveWire.Server.ControlAtomic
import DriveWire.Server.Script
import DriveWire.Server.Sessions
import DriveWire.Vserial.Commands

/-! # Ejecting a Disk

    A WRITE looks its slot up in the table of drives, drops the lock of the
    table, and then writes to the disk that it has found.  An UNMOUNT, or a
    MOUNT on the same slot, can run between the two.  After its reply the old
    image is written to by those sessions only that had found it before the
    table was changed, and by each of them only once. -/

namespace DriveWire

open Async Server

variable {D F N : Type}

/-! ## Section 1: A guest and its disk -/

/-- The slot of the last READ or WRITE header that a guest has sent, and the
    disk that was looked up for it and not used yet. -/
structure Serving (D : Type) where
  slot : Option UInt8
  disk : Option D

def Serving.next (st : Serving D) : (e : Eff D) → e.Res → Serving D
  | .io (.readExact 4), .ok hdr => ⟨some (slotOf hdr), none⟩
  | .op (.driveGet _), found => ⟨st.slot, found⟩
  | .sys (.diskRead _ _), _ => ⟨st.slot, none⟩
  | .sys (.diskWrite _ _ _), _ => ⟨st.slot, none⟩
  | _, _ => st

/-- A lookup is for the slot of the header, and a write goes to the disk that
    was found. -/
def Serving.Allows (st : Serving D) : Eff D → Prop
  | .op (.driveGet slot) => st.slot = some slot
  | .sys (.diskWrite d _ _) => st.disk = some d
  | _ => True

def serving : Protocol (Eff D) Eff.Res (Serving D) where
  allows := Serving.Allows
  admits := fun _ _ _ => True
  next   := Serving.next

/-- What guest session `n` is serving after a run with labels `tr`. -/
def servingOf (n : Nat) (tr : List (SysLabel D)) : Serving D :=
  Prog.after serving ⟨none, none⟩ (eventsOf (.guest n) tr)

/-- Effects that have nothing to do with the disks. -/
def Diskless : Eff D → Prop
  | .op (.driveGet _) | .sys (.diskWrite _ _ _) => False
  | _ => True

theorem Diskless.allowed (st : Serving D) {e : Eff D} (h : Diskless e) : st.Allows e := by
  cases e with
  | op o =>
    cases o with
    | driveGet slot => cases h
    | _ => trivial
  | sys y =>
    cases y with
    | diskWrite d lsn sector => cases h
    | _ => trivial
  | _ => trivial

theorem PlainEff.diskless {e : Eff D} (h : PlainEff e) : Diskless e := by
  cases e with
  | op o => cases o <;> trivial
  | sys y => cases y <;> trivial
  | _ => trivial

/-! ## Section 2: The guest sessions -/

/-- What READ does with the disk that it finds. -/
theorem serving_fetchSector {slot : UInt8} {lsn : Lsn} {st : Serving D}
    (h : st.slot = some slot) :
    (fetchSector slot lsn : Code D Sector).Obeys serving st (fun _ _ => True) := by
  refine ⟨trivial, fun _ _ => ⟨h, fun found _ => ⟨trivial, fun _ _ => ?_⟩⟩⟩
  cases found with
  | none => trivial
  | some d =>
    refine ⟨trivial, fun r _ => ?_⟩
    cases r <;> trivial

/-- WRITE writes to the disk that it has found. -/
theorem serving_storeSector {slot : UInt8} {lsn : Lsn} {sector : Sector} {st : Serving D}
    (h : st.slot = some slot) :
    (storeSector slot lsn sector : Code D UInt8).Obeys serving st (fun _ _ => True) := by
  refine ⟨trivial, fun _ _ => ⟨h, fun found _ => ⟨trivial, fun _ _ => ?_⟩⟩⟩
  cases found with
  | none => trivial
  | some d =>
    refine ⟨rfl, fun r _ => ?_⟩
    cases r <;> trivial

theorem serving_of_plain {x : Handler D Unit} (h : x.run.Only PlainEff) (st : Serving D) :
    x.run.Obeys serving st (fun _ _ => True) :=
  h.obeys_always (fun st _ he => Diskless.allowed st he.diskless) st

theorem serving_read {n : Nat} {f : Vector UInt8 n → Handler D Unit} {st : Serving D}
    (hf : ∀ v, (f v).run.Obeys serving (st.next (.io (.readExact n)) (.ok v))
      (fun _ _ => True)) :
    (readExact n >>= f).run.Obeys serving st (fun _ _ => True) := by
  rw [run_readExact_bind]
  refine ⟨trivial, fun r _ => ?_⟩
  cases r with
  | ok v => exact hf v
  | error e => trivial

theorem handleRead_serving (extended : Bool) (st : Serving D) :
    (handleRead extended).run.Obeys serving st (fun _ _ => True) := by
  apply serving_read
  intro hdr
  rw [run_call_bind]
  refine (serving_fetchSector rfl).bind fun sector st' _ => serving_of_plain ?_ st'
  apply (plain_writeAll _).run_bind
  intro _
  dsimp only
  split
  · exact (plain_readExact 2).run_bind fun _ => plain_writeAll _
  · exact plain_writeAll _

theorem handleWrite_serving (st : Serving D) :
    (handleWrite (D := D)).run.Obeys serving st (fun _ _ => True) := by
  apply serving_read
  intro hdr
  -- the sector and the checksum leave the header's slot in place
  apply serving_read
  intro sector
  apply serving_read
  intro sumBytes
  split
  · exact serving_of_plain (plain_writeAll _) _
  · rw [run_call_bind]
    refine (serving_storeSector rfl).bind fun status st' _ => ?_
    exact serving_of_plain (plain_writeAll _) st'

theorem dispatch_serving (d : Decoded) (st : Serving D) :
    (dispatch d).run.Obeys serving st (fun _ _ => True) := by
  cases h : d.onDisk with
  | false => exact serving_of_plain (dispatch_plain h) st
  | true =>
    rcases dispatch_onDisk (D := D) h with ⟨extended, hd⟩ | hd
    · rw [hd]
      exact handleRead_serving extended st
    · rw [hd]
      exact handleWrite_serving st

theorem guestOnce_serving (st : Serving D) :
    (guestOnce (D := D)).Obeys serving st (fun _ _ => True) := by
  rw [guestOnce, runOnce_eq]
  refine ⟨trivial, fun r _ => ?_⟩
  cases r with
  | error e => trivial
  | ok v => exact (dispatch_serving _ _).bind fun _ _ _ => trivial

/-! ## Section 3: The control sessions -/

/-- The bytes of a reply. -/
def encode (text : Text) : List UInt8 := (String.ofList text).toUTF8.toList

theorem byteArray_toList (bs : ByteArray) : bs.toList = bs.data.toList := by
  -- the loop collects the bytes from index `i` on
  have hloop : ∀ n i (acc : List UInt8), bs.size - i = n →
      ByteArray.toList.loop bs i acc = acc.reverse ++ bs.data.toList.drop i := by
    intro n
    induction n with
    | zero =>
      intro i acc hn
      have hi : bs.data.toList.length ≤ i := by
        have hsize : bs.size = bs.data.toList.length := by simp
        omega
      rw [ByteArray.toList.loop, if_neg (by omega), List.drop_eq_nil_of_le hi, List.append_nil]
    | succ n ih =>
      intro i acc hn
      have hi : i < bs.data.toList.length := by
        have hsize : bs.size = bs.data.toList.length := by simp
        omega
      rw [ByteArray.toList.loop, if_pos (by omega), ih _ _ (by omega),
        List.drop_eq_getElem_cons hi]
      simp [ByteArray.get!]
      grind
  have hall := hloop bs.size 0 [] rfl
  rwa [List.drop_zero] at hall

theorem encode_inj {a b : Text} (h : encode a = encode b) : a = b := by
  rw [encode, encode, byteArray_toList, byteArray_toList] at h
  have hbytes : (String.ofList a).toUTF8 = (String.ofList b).toUTF8 :=
    ByteArray.ext (Array.toList_inj.mp h)
  have hstring := String.toByteArray_inj.mp hbytes
  rw [← String.toList_ofList (l := a), hstring, String.toList_ofList]

theorem Denotes.unique {s : Text} {m n : UInt8} (hm : Denotes s m) (hn : Denotes s n) : m = n := by
  obtain ⟨ds, hs, -, hds, hvalue⟩ := hm
  obtain ⟨ds', hs', -, hds', hvalue'⟩ := hn
  have hplus : ∀ ds : Text, (∀ c ∈ ds, c.isDigit = true) → ∀ rest, ds ≠ '+' :: rest := by
    rintro ds hall rest rfl
    exact absurd (hall '+' List.mem_cons_self) (by decide)
  have hsame : ds = ds' := by
    rcases hs with rfl | rfl
    · rcases hs' with h | h
      · exact h
      · exact absurd h (hplus _ hds _)
    · rcases hs' with h | h
      · exact absurd h.symm (hplus _ hds' _)
      · injection h
  rw [hsame] at hvalue
  exact UInt8.toNat_inj.mp (hvalue.symm.trans hvalue')

/-- The last line that a control session has read, and what it has done
    since. -/
structure Commanding (D : Type) where
  line   : Option Text
  events : List (Event (Eff.Res (D := D)))

def Commanding.next (st : Commanding D) (e : Eff D) (r : e.Res) : Commanding D :=
  match e, r with
  | .io .nextLine, .ok line => ⟨line, []⟩
  | .io .nextLine, .error _ => ⟨none, []⟩
  | e, r => ⟨st.line, st.events ++ [⟨e, r⟩]⟩

/-- What is written is the reply to the last line. -/
def Commanding.Allows (st : Commanding D) : Eff D → Prop
  | .io (.writeAll bytes) => ∃ line reply, st.line = some line ∧ bytes = encode reply ∧
      Atomic (trim line) st.events reply
  | _ => True

def commanding : Protocol (Eff D) Eff.Res (Commanding D) where
  allows := Commanding.Allows
  admits := fun _ _ _ => True
  next   := Commanding.next

/-- What control session `n` is doing after a run with labels `tr`. -/
def commandOf (n : Nat) (tr : List (SysLabel D)) : Commanding D :=
  Prog.after commanding ⟨none, []⟩ (eventsOf (.control n) tr)

theorem commanding_aside (line : Option Text) (es : List (Event (Eff.Res (D := D)))) (e : Eff D)
    (he : Aside e) : (commanding (D := D)).allows ⟨line, es⟩ e ∧
      ∀ r, (commanding (D := D)).admits ⟨line, es⟩ e r →
        commanding.next ⟨line, es⟩ e r = ⟨line, es ++ [⟨e, r⟩]⟩ := by
  cases e with
  | io i => cases he
  | _ => exact ⟨trivial, fun _ _ => rfl⟩

/-- A control session replies to its commands as `Atomic` says. -/
theorem controlOnce_commanding [VDisk D] [UnicodeTables] (st : Commanding D) :
    (controlOnce (D := D)).Obeys commanding st (fun _ _ => True) := by
  refine controlOnce_obeys trivial (fun _ _ => trivial) (fun _ => trivial) (fun _ _ => trivial) ?_
  intro line _ _
  have hcommand := (handleControlCommand_aside (D := D) (trim line)).obeys_recording
    (handleControlCommand_atomic (trim line)) (commanding_aside (some line))
  refine hcommand.mono fun reply st' hst' => ?_
  obtain ⟨es, rfl, hatomic⟩ := hst'
  exact ⟨⟨line, reply, rfl, rfl, hatomic⟩, fun _ _ => trivial, trivial⟩

/-! ## Section 4: What the labels of a run tell -/

/-- UNMOUNT of a slot, or MOUNT on it. -/
def EjectLine (line : Text) (slot : UInt8) : Prop :=
  (verbOf line = str "MOUNT" ∨ verbOf line = str "UNMOUNT") ∧
    ∃ field rest, fieldsOf line = field :: rest ∧ Denotes field slot

/-- The changes of the table that take the disk of a slot out. -/
def Op.Ejects (slot : UInt8) : Op D → Prop
  | .driveInsert slot' _ => slot' = slot
  | .driveRemove slot' => slot' = slot
  | _ => False

theorem Op.event_of_changes {o : Op D} {es : List (Event (Eff.Res (D := D)))}
    (h : changes es = [o]) : ∃ a, (⟨.op o, a⟩ : Event (Eff.Res (D := D))) ∈ es := by
  have hmem : o ∈ changes es := by
    rw [h]
    exact List.mem_singleton_self o
  obtain ⟨⟨e, a⟩, hev, hchange⟩ := List.mem_filterMap.mp hmem
  cases e with
  | op o' =>
    have hsame : o' = o := by
      cases o' <;> cases hchange <;> rfl
    subst hsame
    exact ⟨a, hev⟩
  | _ => cases hchange

/-- A command that has replied OK has changed the table. -/
theorem Atomic.ejects {line reply : Text} {es : List (Event (Eff.Res (D := D)))}
    (h : Atomic line es reply) {slot : UInt8} (hline : EjectLine line slot)
    (hok : str "OK" <+: reply) : ∃ o a, (⟨.op o, a⟩ : Event (Eff.Res (D := D))) ∈ es ∧
      o.Ejects slot := by
  obtain ⟨hverb, field, rest, hfields, hdenotes⟩ := hline
  rcases hverb with hmount | hunmount
  · obtain ⟨_, _, _, m, d, hfields', hdenotes', -, hes⟩ := h.mounted hmount hok
    rw [hfields] at hfields'
    cases hfields'
    obtain ⟨a, ha⟩ := Op.event_of_changes hes
    exact ⟨_, a, ha, hdenotes'.unique hdenotes⟩
  · obtain ⟨_, _, m, hfields', hdenotes', hes⟩ := h.unmounted hunmount hok
    rw [hfields] at hfields'
    cases hfields'
    obtain ⟨a, ha⟩ := Op.event_of_changes hes
    exact ⟨_, a, ha, hdenotes'.unique hdenotes⟩

/-- The events of a command are the last ones of its session. -/
theorem commanding_events (es : List (Event (Eff.Res (D := D)))) : ∃ before,
    es = before ++ (Prog.after commanding ⟨none, []⟩ es).events ∧
      ∀ ev ∈ (Prog.after commanding ⟨none, []⟩ es).events, ev.1 ≠ .io .nextLine := by
  -- induction from the end: a line that is read begins a new command
  induction es using List.reverseRecOn with
  | nil => exact ⟨[], rfl, fun _ h => by cases h⟩
  | append_singleton es ev ih =>
    obtain ⟨e, r⟩ := ev
    obtain ⟨before, hes, hnone⟩ := ih
    rw [Prog.after_snoc]
    generalize Prog.after commanding ⟨none, []⟩ es = st at hes hnone
    by_cases he : e = .io .nextLine
    · subst he
      refine ⟨es ++ [⟨.io .nextLine, r⟩], ?_, ?_⟩
      · cases r <;> simp [commanding, Commanding.next]
      · cases r <;> exact fun _ h => by cases h
    · have hnext : commanding.next st e r = ⟨st.line, st.events ++ [⟨e, r⟩]⟩ := by
        cases e with
        | io i =>
          cases i with
          | nextLine => exact absurd rfl he
          | _ => rfl
        | _ => rfl
      rw [hnext]
      refine ⟨before, by rw [← List.append_assoc, ← hes], fun ev hev => ?_⟩
      rcases List.mem_append.mp hev with hev | hev
      · exact hnone ev hev
      · rw [List.mem_singleton.mp hev]
        exact he

/-- How a disk comes to be found. -/
theorem Serving.next_found {st : Serving D} {e : Eff D} {r : e.Res} {slot : Option UInt8} {d : D}
    (h : st.next e r = ⟨slot, some d⟩) :
    (∃ slot', (⟨e, r⟩ : Event (Eff.Res (D := D))) = ⟨.op (.driveGet slot'), some d⟩ ∧
      st.slot = slot) ∨
    (st = ⟨slot, some d⟩ ∧ ∀ d' lsn sector, e ≠ .sys (.diskWrite d' lsn sector)) := by
  have hkeep : st.next e r = st → (∀ d' lsn sector, e ≠ .sys (.diskWrite d' lsn sector)) →
      st = ⟨slot, some d⟩ ∧ ∀ d' lsn sector, e ≠ .sys (.diskWrite d' lsn sector) :=
    fun hst hwrite => ⟨hst.symm.trans h, hwrite⟩
  -- only a look into the table finds a disk, and a write forgets it
  cases e with
  | io i =>
    refine .inr (hkeep ?_ fun _ _ _ he => by cases he)
    cases i with
    | readExact n =>
      unfold Serving.next at h ⊢
      split at h
      · cases h
      all_goals simp_all
    | _ => rfl
  | op o =>
    cases o with
    | driveGet slot' =>
      injection h with hslot hdisk
      refine .inl ⟨slot', ?_, hslot⟩
      rw [hdisk]
    | _ => exact .inr (hkeep rfl fun _ _ _ he => by cases he)
  | sys y =>
    cases y with
    | diskRead d' lsn => cases h
    | diskWrite d' lsn sector => cases h
    | _ => exact .inr (hkeep rfl fun _ _ _ he => by cases he)
  | _ => exact .inr (hkeep rfl fun _ _ _ he => by cases he)

/-- A disk that is found after some events was found in one of them, or
    before, and then it has not been written to. -/
theorem found_cases {st : Serving D} {es : List (Event (Eff.Res (D := D)))}
    {slot : Option UInt8} {d : D} (h : Prog.after serving st es = ⟨slot, some d⟩) :
    (∃ es₁ slot' es₂, es = es₁ ++ ⟨.op (.driveGet slot'), some d⟩ :: es₂ ∧
      (Prog.after serving st es₁).slot = slot) ∨
    (st = ⟨slot, some d⟩ ∧
      ∀ ev ∈ es, ∀ d' lsn sector, ev.1 ≠ .sys (.diskWrite d' lsn sector)) := by
  induction es using List.reverseRecOn with
  | nil => exact .inr ⟨h, fun _ hev => by cases hev⟩
  | append_singleton es ev ih =>
    obtain ⟨e, r⟩ := ev
    rw [Prog.after_snoc] at h
    rcases Serving.next_found h with ⟨slot', hev, hslot⟩ | ⟨hst, hwrite⟩
    · refine .inl ⟨es, slot', [], ?_, hslot⟩
      rw [hev]
    · rcases ih hst with ⟨es₁, slot', es₂, rfl, hslot⟩ | ⟨hfound, hnone⟩
      · exact .inl ⟨es₁, slot', es₂ ++ [⟨e, r⟩], by simp, hslot⟩
      · refine .inr ⟨hfound, fun ev hev => ?_⟩
        rcases List.mem_append.mp hev with hev | hev
        · exact hnone ev hev
        · rw [List.mem_singleton.mp hev]
          exact hwrite

/-! ## Section 5: The table of drives -/

/-- The step maps the slot to the disk. -/
def Mounts (slot : UInt8) (d : D) (l : SysLabel D) : Prop := l.2.1 = .op (.driveInsert slot d)

theorem not_mounted_after {slot : UInt8} {d : D} {e : Eff D} {s : Server D}
    (h : s.drives slot ≠ some d) (he : e ≠ .op (.driveInsert slot d)) :
    (e.serverAfter s).drives slot ≠ some d := by
  cases e with
  | op o =>
    cases o with
    | driveInsert slot' d' =>
      show Function.update s.drives slot' (some d') slot ≠ some d
      by_cases hslot : slot = slot'
      · subst hslot
        rw [Function.update_self]
        intro hd
        exact he (by rw [Option.some_inj.mp hd])
      · rwa [Function.update_of_ne hslot]
    | driveRemove slot' =>
      show Function.update s.drives slot' none slot ≠ some d
      by_cases hslot : slot = slot'
      · subst hslot
        rw [Function.update_self]
        exact fun hd => by cases hd
      · rwa [Function.update_of_ne hslot]
    | _ => exact h
  | _ => exact h

theorem Op.Ejects.not_mounted {slot : UInt8} {d : D} {o : Op D} (h : o.Ejects slot)
    (hd : o ≠ .driveInsert slot d) (s : Server D) : (o.run s).2.drives slot ≠ some d := by
  cases o with
  | driveInsert slot' d' =>
    cases (h : slot' = slot)
    show Function.update s.drives slot (some d') slot ≠ some d
    rw [Function.update_self]
    intro hsome
    exact hd (by rw [Option.some_inj.mp hsome])
  | driveRemove slot' =>
    cases (h : slot' = slot)
    show Function.update s.drives slot none slot ≠ some d
    rw [Function.update_self]
    exact fun hsome => by cases hsome
  | _ => cases h

section runs

variable [VDisk D] [UnicodeTables] {env : Env D F N}

/-- A disk that is not mounted stays so until it is mounted. -/
theorem run_not_mounted {ok : SysConfig D F N → SysLabel D → Prop} {c c' : SysConfig D F N}
    {tr : List (SysLabel D)} {slot : UInt8} {d : D} (hrun : Run (system env) ok c tr c')
    (h : c.world.server.drives slot ≠ some d) (hnone : ∀ l ∈ tr, ¬ Mounts slot d l) :
    c'.world.server.drives slot ≠ some d := by
  induction hrun with
  | refl => exact h
  | silent _ hstep ih =>
    rw [step_silent_server hstep]
    exact ih hnone
  | act l _ _ hstep ih =>
    obtain ⟨t, e, r⟩ := l
    rw [step_server hstep]
    apply not_mounted_after
    · exact ih fun l hl => hnone l (List.mem_append_left _ hl)
    · exact hnone _ (List.mem_append_right _ (List.mem_singleton_self _))

/-- What a guest session does next is allowed for what it is serving. -/
theorem serving_allows {s : Server D} {f : F} {net : N} {c c' : SysConfig D F N}
    {tr : List (SysLabel D)} {g : Nat} {e : Eff D} {r : e.Res}
    (hrun : Run (system env) anyStep (Config.initial (World.initial s f net)) tr c)
    (hstep : Step (system env) c (some (.guest g, ⟨e, r⟩)) c') : (servingOf g tr).Allows e := by
  have hguest : ∀ st : Serving D, Prog.Obeys serving ((system env).body (.guest g)) st
      (fun _ _ => True) := guestOnce_serving
  exact hrun.allows (hguest _) (fun st _ => hguest st) (fun _ _ _ => trivial) hstep

theorem commanding_allows {s : Server D} {f : F} {net : N} {c c' : SysConfig D F N}
    {tr : List (SysLabel D)} {n : Nat} {e : Eff D} {r : e.Res}
    (hrun : Run (system env) anyStep (Config.initial (World.initial s f net)) tr c)
    (hstep : Step (system env) c (some (.control n, ⟨e, r⟩)) c') : (commandOf n tr).Allows e := by
  have hcontrol : ∀ st : Commanding D, Prog.Obeys commanding ((system env).body (.control n)) st
      (fun _ _ => True) := controlOnce_commanding
  exact hrun.allows (hcontrol _) (fun st _ => hcontrol st) (fun _ _ _ => trivial) hstep

/-! ## Section 6: After the reply -/

/-- The step that sends a reply of control session `n`. -/
abbrev replied (n : Nat) (reply : Text) : SysLabel D :=
  (.control n, ⟨.io (.writeAll (encode reply)), .ok ()⟩)

/-- The reply acknowledges an UNMOUNT of the slot, or a MOUNT on it. -/
def Acknowledges (n : Nat) (slot : UInt8) (reply : Text) (tr : List (SysLabel D)) : Prop :=
  str "OK" <+: reply ∧ ∃ line, (commandOf n tr).line = some line ∧ EjectLine (trim line) slot

/-- The change of the table that a reply acknowledges. -/
theorem acknowledged {s : Server D} {f : F} {net : N} {c c' : SysConfig D F N}
    {tr : List (SysLabel D)} {n : Nat} {slot : UInt8} {reply : Text}
    (hack : Acknowledges n slot reply tr)
    (hrun : Run (system env) anyStep (Config.initial (World.initial s f net)) tr c)
    (hstep : Step (system env) c (some (replied n reply)) c') :
    ∃ tr₁ o a tr₂, tr = tr₁ ++ (.control n, ⟨.op o, a⟩) :: tr₂ ∧ o.Ejects slot ∧
      ∀ ev ∈ eventsOf (.control n) tr₂, ev.1 ≠ .io .nextLine := by
  obtain ⟨hok, line, hline, heject⟩ := hack
  obtain ⟨line', reply', hline', hbytes, hatomic⟩ := commanding_allows hrun hstep
  rw [hline] at hline'
  cases hline'
  rw [← encode_inj hbytes] at hatomic
  obtain ⟨o, a, hev, ho⟩ := hatomic.ejects heject hok
  obtain ⟨before, hes, hnone⟩ := commanding_events (eventsOf (.control n) tr)
  have hcommand : (Prog.after commanding ⟨none, []⟩ (eventsOf (.control n) tr)).events =
      (commandOf n tr).events := rfl
  rw [hcommand] at hes hnone
  obtain ⟨es₁, es₂, hsplit⟩ := List.append_of_mem hev
  rw [hsplit, ← List.append_assoc] at hes
  obtain ⟨tr₁, tr₂, htr, -, h₂⟩ := eventsOf_eq_append_cons hes
  refine ⟨tr₁, o, a, tr₂, htr, ho, fun ev hmem => hnone ev ?_⟩
  rw [h₂] at hmem
  rw [hsplit]
  exact List.mem_append_right _ (List.mem_cons_of_mem _ hmem)

/-- A disk that has been ejected is found by nobody any more. -/
theorem not_found_after {s : Server D} {f : F} {net : N} {c₁ c₂ c : SysConfig D F N}
    {tr₁ tr₂ : List (SysLabel D)} {l : SysLabel D} {g : Nat} {slot : UInt8} {d : D}
    (hrun₁ : Run (system env) anyStep (Config.initial (World.initial s f net)) tr₁ c₁)
    (hstep : Step (system env) c₁ (some l) c₂) (hrun₂ : Run (system env) anyStep c₂ tr₂ c)
    (hgone : c₂.world.server.drives slot ≠ some d) (hnone : ∀ l ∈ tr₂, ¬ Mounts slot d l)
    (hother : l.1 ≠ .guest g) (hslot : servingOf g (tr₁ ++ l :: tr₂) = ⟨some slot, some d⟩) :
    servingOf g tr₁ = ⟨some slot, some d⟩ ∧ ∀ ev ∈ eventsOf (.guest g) tr₂,
      ∀ d' lsn sector, ev.1 ≠ .sys (.diskWrite d' lsn sector) := by
  have hskip : eventsOf (.guest g) (l :: tr₂) = eventsOf (.guest g) tr₂ :=
    List.filterMap_cons_none (if_neg hother)
  have hafter : Prog.after serving (servingOf g tr₁) (eventsOf (.guest g) tr₂) =
      ⟨some slot, some d⟩ := by
    rw [← hslot, servingOf, servingOf, eventsOf_append, hskip, Prog.after_append]
  rcases found_cases hafter with ⟨es₁, slot', es₂, hes, hlast⟩ | hbefore
  · -- the lookup would have seen the disk in the table
    exfalso
    obtain ⟨tr₃, tr₄, rfl, h₃, -⟩ := eventsOf_eq_append_cons hes
    obtain ⟨c₃, c₄, hrun₃, -, hlookup, -⟩ := hrun₂.split
    have hprefix : Run (system env) anyStep (Config.initial (World.initial s f net))
        (tr₁ ++ l :: tr₃) c₃ := by
      have htrans := (hrun₁.act l trivial hstep).trans hrun₃
      rwa [List.append_assoc] at htrans
    have hallowed : (servingOf g (tr₁ ++ l :: tr₃)).slot = some slot' :=
      serving_allows hprefix hlookup
    have hsame : slot' = slot := by
      have hskip₃ : eventsOf (.guest g) (l :: tr₃) = eventsOf (.guest g) tr₃ :=
        List.filterMap_cons_none (if_neg hother)
      rw [servingOf, eventsOf_append, hskip₃, h₃, Prog.after_append] at hallowed
      exact Option.some_inj.mp (hallowed.symm.trans hlast)
    have hfound := (step_op hlookup).1
    rw [hsame] at hfound
    exact run_not_mounted hrun₃ hgone (fun l hl => hnone l (List.mem_append_left _ hl)) hfound.symm
  · exact hbefore

/-- **After an eject is acknowledged** the only writes that still go to the
    old image are late ones: for every run that ends with a WRITE addressed to
    the slot, after a reply OK to UNMOUNT or MOUNT, the command has changed
    the table before the reply, and either the image was mounted on the slot
    again, or the session of the WRITE had found the image already when the
    table was changed, and has written to no disk since. -/
theorem write_after_eject (env : Env D F N) (s : Server D) (f : F) (net : N)
    {c : SysConfig D F N} {tr tr' : List (SysLabel D)} {n g : Nat} {slot : UInt8} {reply : Text}
    {d : D} {lsn : Lsn} {sector : Sector} {r : Except VDiskError Unit}
    (hrun : Run (system env) anyStep (Config.initial (World.initial s f net))
      (tr ++ replied n reply :: tr' ++ [(.guest g, ⟨.sys (.diskWrite d lsn sector), r⟩)]) c)
    (hack : Acknowledges n slot reply tr)
    (hslot : (servingOf g (tr ++ replied n reply :: tr')).slot = some slot) :
    ∃ tr₁ o a tr₂, tr = tr₁ ++ (.control n, ⟨.op o, a⟩) :: tr₂ ∧ o.Ejects slot ∧
      (∀ ev ∈ eventsOf (.control n) tr₂, ev.1 ≠ .io .nextLine) ∧
      ((∃ l ∈ (.control n, ⟨.op o, a⟩) :: tr₂ ++ replied n reply :: tr', Mounts slot d l) ∨
        servingOf g tr₁ = ⟨some slot, some d⟩ ∧
          ∀ ev ∈ eventsOf (.guest g) (tr₂ ++ replied n reply :: tr'),
            ∀ d' lsn' sector', ev.1 ≠ .sys (.diskWrite d' lsn' sector')) := by
  obtain ⟨c₁, c₂, hrun₁, -, hwrite, -⟩ := hrun.split
  obtain ⟨c₃, c₄, hrun₃, -, hreply, hrun₄⟩ := hrun₁.split
  obtain ⟨tr₁, o, a, tr₂, rfl, ho, hnone⟩ := acknowledged hack hrun₃ hreply
  refine ⟨tr₁, o, a, tr₂, rfl, ho, hnone, ?_⟩
  by_cases hmounts :
      ∃ l ∈ (.control n, ⟨.op o, a⟩) :: tr₂ ++ replied n reply :: tr', Mounts slot d l
  · exact .inl hmounts
  · right
    have hkept : ∀ l ∈ (.control n, ⟨.op o, a⟩) :: tr₂ ++ replied n reply :: tr',
        ¬ Mounts slot d l := fun l hl hd => hmounts ⟨l, hl, hd⟩
    obtain ⟨c₅, c₆, hrun₅, -, heject, hrun₆⟩ := hrun₃.split
    -- right after the command the image is not on the slot, and nobody mounts it again
    have hgone : c₆.world.server.drives slot ≠ some d := by
      rw [(step_op heject).2]
      exact ho.not_mounted (fun hd => hkept _ List.mem_cons_self (congrArg Eff.op hd)) _
    have hrun₇ : Run (system env) anyStep c₆ (tr₂ ++ replied n reply :: tr') c₁ := by
      have htrans := (hrun₆.act _ trivial hreply).trans hrun₄
      rwa [List.append_assoc] at htrans
    have hdisk : (servingOf g (tr₁ ++ (.control n, ⟨.op o, a⟩) ::
        (tr₂ ++ replied n reply :: tr'))) = ⟨some slot, some d⟩ := by
      have hallowed : (servingOf g _).disk = some d := serving_allows hrun₁ hwrite
      rw [List.append_assoc, List.cons_append] at hallowed hslot
      rw [← hallowed, ← hslot]
    -- so the session of the WRITE must have looked before
    exact not_found_after hrun₅ heject hrun₇ hgone (fun l hl => hkept l (List.mem_cons_of_mem _ hl))
      (fun h => by cases h) hdisk

end runs

/-! ## Section 7: A late write -/

/-- Guests that send WRITEs of a zero sector to slot 0, and a client that
    sends `UNMOUNT 0`. -/
def steadyIo : (i : Io) → i.Res
  | .nextLine => .ok (some (str "UNMOUNT 0"))
  | .writeAll _ => .ok ()
  | .readExact n => .ok (Vector.replicate n (if n = 1 then 0x57 else 0))
  | .read _ => .ok []
  | .nextCall => .isChannelOpen 0

def steadySys : (y : Sys Unit) → y.Res
  | .diskRead _ _ => .ok zeroSector
  | .diskWrite _ _ _ => .ok ()
  | .diskOpen _ _ => .ok ()
  | .nowLocal => none
  | .nowUtc => ⟨1970, 1, 1, 0, 0, 0⟩

def steady : Answers Unit Unit Unit where
  net := fun _ i n => (.ready (steadyIo i), n)
  sys := fun y f => (steadySys y, f)

/-- One disk, on slot 0. -/
def oneDisk : Server Unit :=
  { Server.new Unit with drives := fun slot => if slot = 0 then some () else none }

abbrev steadySystem : Runtime Tid (Eff Unit) Eff.Res (World Unit Unit Unit) Exit :=
  @system Unit Unit Unit noDisk asciiTables steady.env

def steadyPlay (turns : List Tid) : SysConfig Unit Unit Unit :=
  @Answers.play Unit Unit Unit steady noDisk asciiTables
    (Config.initial (World.initial oneDisk () ())) turns

def steadyLabels (turns : List Tid) : List (SysLabel Unit) :=
  @Answers.labels Unit Unit Unit steady noDisk asciiTables
    (Config.initial (World.initial oneDisk () ())) turns

/-- The guest has found the disk, then the table is changed. -/
def ejecting : List Tid := List.replicate 8 (Tid.guest 0) ++ List.replicate 5 (Tid.control 0)

def okReply : Text := str "OK unmounted slot 0\n"

/-- The step that writes to the disk. -/
abbrev lateWrite : SysLabel Unit :=
  (.guest 0, ⟨.sys (.diskWrite () (Lsn.fromBe3 #v[0, 0, 0]) (Vector.replicate 256 0)), .ok ()⟩)

set_option maxRecDepth 100000 in
/-- The reply is sent, and then the disk is written to. -/
theorem late_run : ∃ c, Run steadySystem anyStep
    (Config.initial (World.initial oneDisk () ()))
    (steadyLabels ejecting ++ replied 0 okReply :: [] ++ [lateWrite]) c := by
  have hrun : Run steadySystem anyStep _ (steadyLabels ejecting) (steadyPlay ejecting) :=
    @Answers.play_run Unit Unit Unit steady noDisk asciiTables _ ejecting
  let after :=
    @Answers.play Unit Unit Unit steady noDisk asciiTables (steadyPlay ejecting) [.control 0]
  have hreply : Run steadySystem anyStep (steadyPlay ejecting) [replied 0 okReply] after :=
    @Answers.play_run Unit Unit Unit steady noDisk asciiTables _ [.control 0]
  have hwrite : Run steadySystem anyStep after [lateWrite] _ :=
    @Answers.play_run Unit Unit Unit steady noDisk asciiTables after [.guest 0]
  exact ⟨_, (hrun.trans hreply).trans hwrite⟩

set_option maxRecDepth 100000 in
theorem late_acknowledged : Acknowledges 0 0 okReply (steadyLabels ejecting) := by
  have hok : str "OK" <+: okReply := by decide
  have hunmount : verbOf (str "UNMOUNT 0") = str "UNMOUNT" := by decide
  have hzero : Denotes (str "0") 0 := parseU8_denotes (by decide)
  exact ⟨hok, str "UNMOUNT 0", rfl, .inr hunmount, str "0", [], rfl, hzero⟩

set_option maxRecDepth 100000 in
theorem late_slot :
    (servingOf 0 (steadyLabels ejecting ++ replied 0 okReply :: [])).slot = some 0 :=
  rfl

theorem write_after_eject_unmount : ∃ tr₁ o a tr₂,
    steadyLabels ejecting = tr₁ ++ (.control 0, ⟨.op o, a⟩) :: tr₂ ∧ o.Ejects 0 ∧
      (∀ ev ∈ eventsOf (.control 0) tr₂, ev.1 ≠ .io .nextLine) ∧
      ((∃ l ∈ (.control 0, ⟨.op o, a⟩) :: tr₂ ++ replied 0 okReply :: [], Mounts 0 () l) ∨
        servingOf 0 tr₁ = ⟨some 0, some ()⟩ ∧
          ∀ ev ∈ eventsOf (.guest 0) (tr₂ ++ replied 0 okReply :: []),
            ∀ d lsn sector, ev.1 ≠ .sys (.diskWrite d lsn sector)) := by
  obtain ⟨c, hrun⟩ := late_run
  exact @write_after_eject Unit Unit Unit noDisk asciiTables steady.env oneDisk () () c _ _ _ _ _ _
    _ _ _ _ hrun late_acknowledged late_slot

/-- After a reply OK nothing is written to the image that was mounted on the
    slot, unless the image is mounted again. -/
def QuietAfterEject (env : Env Unit Unit Unit) : Prop :=
  ∀ (s : Server Unit) (c : SysConfig Unit Unit Unit) (tr tr' : List (SysLabel Unit)) (n g : Nat)
    (slot : UInt8) (reply : Text) (d : Unit) (lsn : Lsn) (sector : Sector)
    (r : Except VDiskError Unit),
    Run (@system Unit Unit Unit noDisk asciiTables env) anyStep
      (Config.initial (World.initial s () ()))
      (tr ++ replied n reply :: tr' ++ [(.guest g, ⟨.sys (.diskWrite d lsn sector), r⟩)]) c →
    s.drives slot = some d → Acknowledges n slot reply tr →
    (servingOf g (tr ++ replied n reply :: tr')).slot = some slot →
    ∃ l ∈ tr ++ replied n reply :: tr', Mounts slot d l

set_option maxRecDepth 100000 in
/-- In this run nothing is mounted. -/
theorem late_write : ¬ QuietAfterEject steady.env := by
  intro h
  obtain ⟨c, hrun⟩ := late_run
  obtain ⟨l, hl, hmounts⟩ := h _ _ _ _ _ _ _ _ _ _ _ _ hrun rfl late_acknowledged late_slot
  have hall : (changes ((steadyLabels ejecting ++ replied 0 okReply :: []).map Prod.snd)) =
      [.driveRemove 0] := rfl
  have hmem : Op.driveInsert 0 () ∈ changes ((steadyLabels ejecting ++
      replied 0 okReply :: []).map Prod.snd) := by
    rw [changes, List.mem_filterMap]
    exact ⟨l.2, List.mem_map_of_mem hl, by rw [show l.2.1 = _ from hmounts]; rfl⟩
  rw [hall, List.mem_singleton] at hmem
  cases hmem

end DriveWire
