import Mathlib.Logic.Function.Basic
import RemoteCodex.Lib.Linear
import RemoteCodex.Agent.Lifecycle
import RemoteCodex.Agent.SessionOutput

namespace RemoteCodex
set_option autoImplicit true
open Trace Linear

/-- The metadata of a session. -/
structure SessionMeta where
  info : SessionInfo
  label : String
  state : Lifecycle

structure SessionRow where
  metadata : SessionMeta
  lifecycle : Lifecycle

/-- The durable table of the sessions. -/
structure SessionTable where
  rows : AList fun _ : Uuid => SessionRow

namespace SessionTable

/-- The whole record is written, over an older one if there is one. -/
def saveSession (t : SessionTable) (m : SessionMeta) : SessionTable :=
  ⟨t.rows.insert m.info.sessionId ⟨m, m.state⟩⟩

/-- Only the label of the stored record changes. -/
def renameSessionLabel (t : SessionTable) (sessionId : Uuid) (label : String) :
    Option SessionTable :=
  (t.rows.lookup sessionId).map fun row =>
    ⟨t.rows.insert sessionId { row with metadata := { row.metadata with label } }⟩

def label? (t : SessionTable) (sessionId : Uuid) : Option String :=
  (t.rows.lookup sessionId).map fun row => row.metadata.label

theorem label_save (t : SessionTable) (m : SessionMeta) :
    (t.saveSession m).label? m.info.sessionId = some m.label := by
  rw [label?, saveSession, AList.lookup_insert]
  rfl

theorem label_rename {t : SessionTable} (h : t.renameSessionLabel sessionId label = some t') :
    t'.label? sessionId = some label := by
  rw [renameSessionLabel, Option.map_eq_some_iff] at h
  obtain ⟨row, _, rfl⟩ := h
  rw [label?, AList.lookup_insert]
  rfl

end SessionTable

/-- What `create` does next after it has started the threads of the session. -/
inductive CreatePc where
  | clone
  | save (m : SessionMeta)
  | created
  | failed

/-- What a call of `rename_label` does next. From `locked` to `stored` it holds the lock of
`meta`. -/
inductive RenamePc where
  | idle
  | called (label : String)
  | locked (label : String)
  | checked (label : String)
  | stored (label : String)
  | renamed (label : String)
  | changed (label : String)
  | returned (label : String) (r : Except ErrorCode SessionMeta)

namespace RenamePc

/-- The call holds the lock of `meta`. -/
def holds : RenamePc → Bool
  | .locked _ | .checked _ | .stored _ => true
  | _ => false

/-- The call has seen the session running, and has not changed `meta` yet. -/
def inside : RenamePc → Bool
  | .checked _ | .stored _ => true
  | _ => false

def finished : RenamePc → Bool
  | .idle | .returned .. => true
  | _ => false

def label? : RenamePc → Option String
  | .idle => none
  | .called l | .locked l | .checked l | .stored l | .renamed l | .changed l => some l
  | .returned l _ => some l

/-- The label in the table while a call is at this place with the lock held, and `meta` has the
given one. -/
def stands (pc : RenamePc) (label : String) : String :=
  match pc with
  | .stored l => l
  | _ => label

/-- The label that the call has written. -/
def took? : RenamePc → Option String
  | .renamed l | .changed l | .returned l (.ok _) => some l
  | _ => none

def result? : RenamePc → Option (Except ErrorCode SessionMeta)
  | .returned _ r => some r
  | _ => none

theorem holds_of_inside (pc : RenamePc) (h : pc.inside = true) : pc.holds = true := by
  cases pc with
  | checked | stored => rfl
  | _ => cases h

theorem inside_of_free (pc : RenamePc) (h : pc.holds = false) : pc.inside = false := by
  rw [← Bool.not_eq_true]
  intro hi
  rw [pc.holds_of_inside hi] at h
  cases h

theorem stands_eq (pc : RenamePc) (label : String) (h : pc.inside = false) :
    pc.stands label = label := by
  cases pc with
  | stored => cases h
  | _ => rfl

end RenamePc

inductive RenameEvent where
  | called (call : Nat) (label : String)
  | returned (call : Nat) (r : Except ErrorCode SessionMeta)

/-- A session with its row of the table, and all calls of `rename_label`. The state of `meta` is
that of `life`; `holder` is the call that holds the lock of `meta`. -/
structure RenameWorld where
  life : LifeWorld
  info : SessionInfo
  label : String
  table : SessionTable
  create : CreatePc
  cloned : Option SessionMeta
  holder : Option Nat
  renames : Nat → RenamePc

namespace RenameWorld

def start (s : Session) (info : SessionInfo) (label : String) (table : SessionTable) :
    RenameWorld :=
  ⟨.start s, info, label, table, .clone, none, none, fun _ => .idle⟩

/-- `info()` reads `meta` as a whole. -/
def metadata (w : RenameWorld) : SessionMeta := ⟨w.info, w.label, w.life.lifecycle⟩

def goto (w : RenameWorld) (c : Nat) (pc : RenamePc) : RenameWorld :=
  { w with renames := Function.update w.renames c pc }

def unlock (w : RenameWorld) : RenameWorld := { w with holder := none }

/-- A write to the table, which may fail and then leaves it as it was. -/
def write (w : RenameWorld) (ok : Bool) (table : SessionTable) : RenameWorld :=
  { w with table := if ok then table else w.table }

def stored? (w : RenameWorld) : Option String := w.table.label? w.info.sessionId

/-- `create` and the calls of `rename_label` hold no reference to the session. -/
def Unused (w : RenameWorld) : Prop :=
  (w.create = .created ∨ w.create = .failed) ∧ ∀ c, (w.renames c).finished = true

/-- The steps of `create` after it has started the threads, of the calls of `rename_label`, and of
`close` and the wait thread. Whatever these show they show with the lock of `meta` held; the
thread's last action is split into its copy of `meta` and its write. -/
inductive Step : RenameWorld → List RenameEvent → RenameWorld → Prop where
  | clone (w : RenameWorld) (hp : w.create = .clone) (hl : w.holder = none) :
      Step w [] { w with create := .save w.metadata }
  | saved (w : RenameWorld) (m : SessionMeta) (hp : w.create = .save m) :
      Step w [] { w.write true (w.table.saveSession m) with create := .created }
  | failed (w : RenameWorld) (m : SessionMeta) (hp : w.create = .save m) :
      Step w [] { w with
        create := .failed, life := { w.life with closers := w.life.closers ++ [.swap] } }
  | life (w : RenameWorld) (v : LifeWorld) (e : List LifeEvent) (hs : LifeWorld.Step w.life e v)
      (hl : e = [] ∨ w.holder = none) (hsave : w.life.waiter = .save → v.waiter = .save)
      (hd : v.alive = w.life.alive ∨ w.Unused) : Step w [] { w with life := v }
  | copy (w : RenameWorld) (hp : w.life.waiter = .save) (hn : w.cloned = none)
      (hl : w.holder = none) : Step w [] { w with cloned := some w.metadata }
  | save (w : RenameWorld) (m : SessionMeta) (ok : Bool) (hp : w.life.waiter = .save)
      (hm : w.cloned = some m) :
      Step w [] { w.write ok (w.table.saveSession m) with
        life := { w.life with waiter := .done }, cloned := none }
  | call (w : RenameWorld) (c : Nat) (label : String) (hp : w.renames c = .idle)
      (hc : w.create = .created) (ha : w.life.alive = true) :
      Step w [.called c label] (w.goto c (.called label))
  | lock (w : RenameWorld) (c : Nat) (label : String) (hp : w.renames c = .called label)
      (hl : w.holder = none) : Step w [] { w.goto c (.locked label) with holder := some c }
  | refuse (w : RenameWorld) (c : Nat) (label : String) (hp : w.renames c = .locked label)
      (hr : w.life.s.running = false) :
      Step w [.returned c (.error .sessionLost)]
        (w.unlock.goto c (.returned label (.error .sessionLost)))
  | check (w : RenameWorld) (c : Nat) (label : String) (hp : w.renames c = .locked label)
      (hr : w.life.s.running = true) : Step w [] (w.goto c (.checked label))
  | store (w : RenameWorld) (c : Nat) (label : String) (table : SessionTable)
      (hp : w.renames c = .checked label)
      (ht : w.table.renameSessionLabel w.info.sessionId label = some table) :
      Step w [] ((w.write true table).goto c (.stored label))
  | lose (w : RenameWorld) (c : Nat) (label : String) (hp : w.renames c = .checked label) :
      Step w [.returned c (.error .internal)]
        (w.unlock.goto c (.returned label (.error .internal)))
  | rename (w : RenameWorld) (c : Nat) (label : String) (hp : w.renames c = .stored label) :
      Step w [] { w.unlock.goto c (.renamed label) with label }
  | changed (w : RenameWorld) (c : Nat) (label : String) (hp : w.renames c = .renamed label)
      (hl : w.holder = none) : Step w [] (w.goto c (.changed label))
  | finish (w : RenameWorld) (c : Nat) (label : String) (hp : w.renames c = .changed label)
      (hl : w.holder = none) :
      Step w [.returned c (.ok w.metadata)] (w.goto c (.returned label (.ok w.metadata)))
  | other (w : RenameWorld) (info : SessionInfo) (hi : info.sessionId = w.info.sessionId)
      (hl : w.holder = none) : Step w [] { w with info }
  | others (w : RenameWorld) (table : SessionTable)
      (ht : table.rows.lookup w.info.sessionId = w.table.rows.lookup w.info.sessionId) :
      Step w [] { w with table }

/-- All calls and the wait thread have come to their end. -/
def Finished (w : RenameWorld) : Prop := w.life.Finished ∧ ∀ c, (w.renames c).finished = true

end RenameWorld

namespace WaitPc

/-- The thread has cleared the running flag, and may still save. -/
def stopped : WaitPc → Bool
  | .revoke _ | .mark _ | .signal | .notify | .save => true
  | _ => false

/-- The thread has held the lock of `meta` since it cleared the running flag. -/
def late : WaitPc → Bool
  | .signal | .notify | .save => true
  | _ => false

theorem stopped_of_late (pc : WaitPc) (h : pc.late = true) : pc.stopped = true := by
  cases pc with
  | signal | notify | save => rfl
  | _ => cases h

end WaitPc

namespace LifeWorld

/-- The running flag is never set again. -/
theorem Step.running (hs : Step w e v) (h : w.s.running = false) : v.s.running = false := by
  cases hs with
  | close pc =>
    cases pc with
    | swap => rfl
    | _ => exact h
  | wait =>
    cases hw : w.waiter with
    | store ok => rfl
    | _ => exact h
  | other s hr => exact hr.trans h
  | _ => exact h

/-- Past the place where it clears the running flag, the thread has done so. -/
theorem Step.stopped (hs : Step w e v) (h : w.waiter.stopped = true → w.s.running = false)
    (hv : v.waiter.stopped = true) : v.s.running = false := by
  cases hs with
  | close pc before after hc =>
    rw [(w.close_lifecycle pc).2.1] at hv
    exact (Step.close w pc before after hc).running (h hv)
  | exit ok hp => cases hv
  | wait =>
    cases hw : w.waiter with
    | store ok => rfl
    | wait => rw [hw] at hv; cases hv
    | done => rw [hw] at hv; cases hv
    | save => rw [hw] at hv; cases hv
    | upgrade ok =>
      rw [hw] at hv
      simp only [LifeWorld.wait] at hv
      split at hv <;> cases hv
    | revoke ok | mark ok | signal | notify =>
      rw [hw] at h
      exact h rfl
  | other s hr => exact hr.trans (h hv)
  | call | drop => exact h hv

/-- The thread leaves the place where it writes the state with the lock of `meta`. -/
theorem Step.late (hs : Step w e v) (hv : v.waiter.late = true) :
    w.waiter.late = true ∨ (e ≠ [] ∧ w.waiter.stopped = true) := by
  cases hs with
  | close pc before after hc =>
    rw [(w.close_lifecycle pc).2.1] at hv
    exact .inl hv
  | exit ok hp => cases hv
  | wait =>
    cases hw : w.waiter with
    | mark ok => exact .inr ⟨List.cons_ne_nil _ _, rfl⟩
    | signal | notify | save => exact .inl rfl
    | upgrade ok =>
      rw [hw] at hv
      simp only [LifeWorld.wait] at hv
      split at hv <;> cases hv
    | _ =>
      rw [hw] at hv
      cases hv
  | _ => exact .inl hv

end LifeWorld

namespace RenameWorld

/-- The label in the table. -/
def pending (w : RenameWorld) : String :=
  match w.holder with
  | some c => (w.renames c).stands w.label
  | none => w.label

/-- The record is one of the session, with its present label. -/
def Fresh (w : RenameWorld) (m : SessionMeta) : Prop :=
  m.info.sessionId = w.info.sessionId ∧ m.label = w.label

/-- How the places of all calls, the label and the table fit together. -/
structure Consistent (w : RenameWorld) : Prop where
  first : ∀ m, w.create = .save m → w.Fresh m
  early : w.create ≠ .created → ∀ c, w.renames c = .idle
  cloned : ∀ m, w.cloned = some m → w.life.waiter = .save ∧ w.Fresh m
  holder : ∀ c, (w.renames c).holds = true ↔ w.holder = some c
  stopped : w.life.waiter.stopped = true → w.life.s.running = false
  late : w.life.waiter.late = true → ∀ c, (w.renames c).inside = false
  durable : w.create = .created → w.stored? = some w.pending

theorem consistent_start (s : Session) (info : SessionInfo) (label : String)
    (table : SessionTable) : Consistent (start s info label table) where
  first _ h := by cases h
  early _ _ := rfl
  cloned _ h := by cases h
  holder _ := iff_of_false Bool.false_ne_true nofun
  stopped h := by cases h
  late h := by cases h
  durable h := by cases h

@[simp] theorem goto_self (w : RenameWorld) (c : Nat) (pc : RenamePc) :
    (w.goto c pc).renames c = pc := Function.update_self ..

theorem goto_of_ne (w : RenameWorld) (pc : RenamePc) (h : d ≠ c) :
    (w.goto c pc).renames d = w.renames d := Function.update_of_ne h ..

namespace Consistent

theorem holder_of (h : Consistent w) (hp : w.renames c = pc) (hh : pc.holds = true) :
    w.holder = some c := by
  rw [← h.holder, hp]
  exact hh

theorem created_of (h : Consistent w) (hp : w.renames c = pc) (hn : pc ≠ .idle) :
    w.create = .created := by
  by_contra hc
  exact hn (hp.symm.trans (h.early hc c))

/-- A call moves on outside the lock. -/
theorem outside (h : Consistent w) (hc : w.create = .created)
    (hp : (w.renames c).holds = false) (hn : pc.holds = false) : Consistent (w.goto c pc) where
  first := h.first
  early hne := absurd hc hne
  cloned := h.cloned
  holder d := by
    by_cases hd : d = c
    · subst hd
      rw [goto_self, hn]
      refine ⟨nofun, fun hh => ?_⟩
      rw [(h.holder d).2 hh] at hp
      cases hp
    · rw [goto_of_ne w pc hd]
      exact h.holder d
  stopped := h.stopped
  late hw d := by
    by_cases hd : d = c
    · subst hd
      rw [goto_self]
      exact pc.inside_of_free hn
    · rw [goto_of_ne w pc hd]
      exact h.late hw d
  durable _ := by
    refine (h.durable hc).trans (congrArg some ?_)
    cases hl : w.holder with
    | none => simp only [pending, goto, hl]
    | some d =>
      have hd : d ≠ c := by
        rintro rfl
        rw [(h.holder d).2 hl] at hp
        cases hp
      simp only [pending, goto, hl, Function.update_of_ne hd]

/-- What is stored, seen from the call that holds the lock, or from any if it is free. -/
theorem stands (h : Consistent w) (hc : w.create = .created)
    (hl : w.holder = none ∨ w.holder = some c) :
    w.stored? = some ((w.renames c).stands w.label) := by
  rw [h.durable hc]
  rcases hl with hl | hl
  · have hfree : (w.renames c).holds = false := by
      rw [← Bool.not_eq_true, h.holder, hl]
      nofun
    rw [RenamePc.stands_eq _ _ (RenamePc.inside_of_free _ hfree), pending, hl]
  · rw [pending, hl]

/-- The call that holds the lock, and what is stored there. -/
theorem turn (h : Consistent w) (hp : w.renames c = pc) (hh : pc.holds = true) :
    w.holder = some c ∧ w.create = .created ∧ w.stored? = some (pc.stands w.label) := by
  have hl := h.holder_of hp hh
  have hc := h.created_of hp (by rintro rfl; cases hh)
  refine ⟨hl, hc, ?_⟩
  rw [← hp]
  exact h.stands hc (.inr hl)

/-- The call that takes the lock, or holds it, moves on. -/
theorem own (h : Consistent w) (pc : RenamePc) (label : String) (table : SessionTable)
    (hl : w.holder = none ∨ w.holder = some c) (hc : w.create = .created)
    (hi : pc.inside = true → (w.renames c).inside = true ∨ w.life.s.running = true)
    (hlabel : label = w.label ∨ (w.renames c).inside = true)
    (ht : table.label? w.info.sessionId = some (pc.stands label)) :
    Consistent { w.goto c pc with
      holder := if pc.holds then some c else none, label, table } := by
  refine ⟨?_, fun hne => absurd hc hne, ?_, ?_, h.stopped, ?_, ?_⟩
  · intro m hm
    rw [show w.create = .save m from hm] at hc
    cases hc
  · intro m hm
    obtain ⟨hw, hid, hm'⟩ := h.cloned m hm
    rcases hlabel with rfl | hin
    · exact ⟨hw, hid, hm'⟩
    · rw [h.late (by rw [hw]; rfl) c] at hin
      cases hin
  · intro d
    by_cases hd : d = c
    · subst hd
      simp only [goto_self]
      cases pc.holds with
      | true => exact iff_of_true rfl rfl
      | false => exact iff_of_false nofun nofun
    · simp only [goto_of_ne w pc hd, h.holder]
      rcases hl with hl | hl
      · rw [hl]
        refine iff_of_false nofun ?_
        split
        · exact fun hh => hd (Option.some.inj hh).symm
        · nofun
      · rw [hl]
        refine iff_of_false (fun hh => hd (Option.some.inj hh).symm) ?_
        split
        · exact fun hh => hd (Option.some.inj hh).symm
        · nofun
  · intro hw d
    by_cases hd : d = c
    · subst hd
      simp only [goto_self]
      rw [← Bool.not_eq_true]
      intro hin
      rcases hi hin with hin | hr
      · rw [h.late hw d] at hin
        cases hin
      · rw [h.stopped (WaitPc.stopped_of_late _ hw)] at hr
        cases hr
    · simp only [goto_of_ne w pc hd]
      exact h.late hw d
  · intro _
    refine Eq.trans ht (congrArg some ?_)
    cases hp : pc.holds with
    | true => simp only [pending, goto_self, if_true]
    | false =>
      have hout := pc.inside_of_free hp
      simp only [pending, Bool.false_eq_true, if_false, pc.stands_eq label hout]

/-- A step of `close` or of the wait thread. -/
theorem life (h : Consistent w) (hs : LifeWorld.Step w.life e v)
    (hl : e = [] ∨ w.holder = none) (hsave : w.life.waiter = .save → v.waiter = .save) :
    Consistent { w with life := v } where
  first := h.first
  early := h.early
  cloned m hm := ⟨hsave (h.cloned m hm).1, (h.cloned m hm).2⟩
  holder := h.holder
  stopped := hs.stopped h.stopped
  late hv c := by
    rcases hs.late hv with hlate | ⟨hne, _⟩
    · exact h.late hlate c
    · rw [← Bool.not_eq_true]
      intro hin
      have hholder := (h.holder c).1 ((w.renames c).holds_of_inside hin)
      rw [hl.resolve_left hne] at hholder
      cases hholder
  durable := h.durable

theorem step (h : Consistent w) (hs : Step w e u) : Consistent u := by
  cases hs with
  | clone hp hl =>
    refine ⟨?_, ?_, h.cloned, h.holder, h.stopped, h.late, nofun⟩
    · intro m hm
      cases hm
      exact ⟨rfl, rfl⟩
    · exact fun _ => h.early (by rw [hp]; nofun)
  | saved m hp =>
    have hidle := h.early (by rw [hp]; nofun)
    have hfree : w.holder = none := by
      rw [Option.eq_none_iff_forall_ne_some]
      intro c hc
      have hholds := (h.holder c).2 hc
      rw [hidle c] at hholds
      cases hholds
    refine ⟨nofun, fun hne => absurd rfl hne, h.cloned, h.holder, h.stopped, h.late, ?_⟩
    intro _
    obtain ⟨hid, hlabel⟩ := h.first m hp
    simp only [stored?, pending, write, if_true, hfree, ← hid, ← hlabel]
    exact w.table.label_save m
  | failed m hp =>
    exact ⟨nofun, fun _ => h.early (by rw [hp]; nofun), h.cloned, h.holder, h.stopped, h.late,
      nofun⟩
  | life v e hs hl hsave hd => exact h.life hs hl hsave
  | copy hp hn hl =>
    refine ⟨h.first, h.early, ?_, h.holder, h.stopped, h.late, h.durable⟩
    intro m hm
    cases hm
    exact ⟨hp, rfl, rfl⟩
  | save m ok hp hm =>
    refine ⟨h.first, h.early, nofun, h.holder, nofun, nofun, ?_⟩
    intro hc
    have hstored := h.durable hc
    obtain ⟨_, hid, hlabel⟩ := h.cloned m hm
    have hpending : w.pending = w.label := by
      cases hl : w.holder with
      | none => simp only [pending, hl]
      | some c =>
        rw [pending, hl]
        exact RenamePc.stands_eq _ _ (h.late (by rw [hp]; rfl) c)
    cases ok with
    | false => exact hstored
    | true =>
      refine Eq.trans ?_ (congrArg some (hlabel.trans hpending.symm))
      simp only [stored?, write, if_true, ← hid]
      exact w.table.label_save m
  | call c label hp hc ha =>
    apply h.outside hc _ rfl
    rw [hp]
    rfl
  | lock c label hp hl =>
    have hc := h.created_of hp nofun
    have hstored := h.stands hc (.inl hl) (c := c)
    rw [hp] at hstored
    exact h.own (.locked label) w.label w.table (.inl hl) hc nofun (.inl rfl) hstored
  | refuse c label hp hr =>
    obtain ⟨hl, hc, hstored⟩ := h.turn hp rfl
    exact h.own (.returned label (.error .sessionLost)) w.label w.table (.inr hl) hc
      nofun (.inl rfl) hstored
  | check c label hp hr =>
    obtain ⟨hl, hc, hstored⟩ := h.turn hp rfl
    have hnext := h.own (.checked label) w.label w.table (.inr hl) hc (fun _ => .inr hr)
      (.inl rfl) hstored
    rw [RenamePc.holds, if_pos rfl, ← hl] at hnext
    exact hnext
  | store c label table hp ht =>
    obtain ⟨hl, hc, -⟩ := h.turn hp rfl
    have hnext := h.own (.stored label) w.label table (.inr hl) hc
      (fun _ => .inl (by rw [hp]; rfl)) (.inl rfl) (SessionTable.label_rename ht)
    rw [RenamePc.holds, if_pos rfl, ← hl] at hnext
    exact hnext
  | lose c label hp =>
    obtain ⟨hl, hc, hstored⟩ := h.turn hp rfl
    exact h.own (.returned label (.error .internal)) w.label w.table (.inr hl) hc
      nofun (.inl rfl) hstored
  | rename c label hp =>
    obtain ⟨hl, hc, hstored⟩ := h.turn hp rfl
    exact h.own (.renamed label) label w.table (.inr hl) hc nofun (.inr (by rw [hp]; rfl)) hstored
  | changed c label hp hl =>
    apply h.outside (h.created_of hp nofun) _ rfl
    rw [hp]
    rfl
  | finish c label hp hl =>
    apply h.outside (h.created_of hp nofun) _ rfl
    rw [hp]
    rfl
  | other info hi hl =>
    refine ⟨?_, h.early, ?_, h.holder, h.stopped, h.late, ?_⟩
    · exact fun m hm => ⟨(h.first m hm).1.trans hi.symm, (h.first m hm).2⟩
    · intro m hm
      obtain ⟨hw, hid, hlabel⟩ := h.cloned m hm
      exact ⟨hw, hid.trans hi.symm, hlabel⟩
    · intro hc
      refine Eq.trans ?_ (h.durable hc)
      simp only [stored?, hi]
  | others table ht =>
    refine ⟨h.first, h.early, h.cloned, h.holder, h.stopped, h.late, ?_⟩
    intro hc
    refine Eq.trans ?_ (h.durable hc)
    simp only [stored?, SessionTable.label?, ht]

end Consistent

theorem run_consistent {info : SessionInfo} {label : String} {table : SessionTable}
    (hr : Run Step (start s info label table) es w) :
    Consistent w :=
  hr.preserves (consistent_start s info label table) Consistent.step

def Called (c : Nat) (e : RenameEvent) : Prop := ∃ label, e = .called c label

def Returned (c : Nat) (e : RenameEvent) : Prop := ∃ r, e = .returned c r

/-- The label that the last of these renames has left. -/
def lastLabel (first : String) (order : List (Nat × String)) : String :=
  (order.getLast?.map Prod.snd).getD first

/-- The calls that have written `meta`, in the order in which they did. -/
structure Ordered (first : String) (es : List RenameEvent) (w : RenameWorld)
    (order : List (Nat × String)) : Prop where
  called : ∀ c l, .called c l ∈ es ↔ (w.renames c).label? = some l
  returned : ∀ c r, .returned c r ∈ es ↔ (w.renames c).result? = some r
  took : ∀ c l, (c, l) ∈ order ↔ (w.renames c).took? = some l
  nodup : (order.map Prod.fst).Nodup
  respects : Respects Called Returned es (order.map Prod.fst)
  label : w.label = lastLabel first order

theorem ordered_start (s : Session) (info : SessionInfo) (label : String)
    (table : SessionTable) : Ordered label [] (start s info label table) [] where
  called _ _ := iff_of_false List.not_mem_nil nofun
  returned _ _ := iff_of_false List.not_mem_nil nofun
  took _ _ := iff_of_false List.not_mem_nil nofun
  nodup := List.nodup_nil
  respects := List.Pairwise.nil
  label := rfl

namespace Ordered

theorem mem_fst (h : Ordered first es w order) (hm : c ∈ order.map Prod.fst) :
    ∃ l, (w.renames c).took? = some l := by
  obtain ⟨⟨_, l⟩, hl, rfl⟩ := List.mem_map.1 hm
  exact ⟨l, (h.took _ l).1 hl⟩

/-- A step that moves no call. -/
theorem still (h : Ordered first es w order) (hr : u.renames = w.renames)
    (hl : u.label = w.label) : Ordered first (es ++ []) u order := by
  rw [List.append_nil]
  refine ⟨?_, ?_, ?_, h.nodup, h.respects, hl.trans h.label⟩
  · rw [hr]; exact h.called
  · rw [hr]; exact h.returned
  · rw [hr]; exact h.took

/-- A step that moves one call, without a write of `meta`. -/
theorem move (h : Ordered first es w order) (c : Nat) (pc : RenamePc)
    (hr : u.renames = Function.update w.renames c pc) (hl : u.label = w.label)
    (hown : ∀ d, d ≠ c → ∀ x ∈ e, ¬ Called d x ∧ ¬ Returned d x)
    (hcall : ∀ l, pc.label? = some l ↔ (w.renames c).label? = some l ∨ .called c l ∈ e)
    (hret : ∀ r, pc.result? = some r ↔ (w.renames c).result? = some r ∨ .returned c r ∈ e)
    (htook : pc.took? = (w.renames c).took?)
    (hnew : (w.renames c).took? = none ∨ ∀ x ∈ e, ¬ Called c x) :
    Ordered first (es ++ e) u order where
  called d l := by
    rw [List.mem_append, h.called, hr]
    by_cases hd : d = c
    · subst hd
      rw [Function.update_self, hcall]
    · rw [Function.update_of_ne hd, or_iff_left]
      exact fun hm => (hown d hd _ hm).1 ⟨l, rfl⟩
  returned d r := by
    rw [List.mem_append, h.returned, hr]
    by_cases hd : d = c
    · subst hd
      rw [Function.update_self, hret]
    · rw [Function.update_of_ne hd, or_iff_left]
      exact fun hm => (hown d hd _ hm).2 ⟨r, rfl⟩
  took d l := by
    rw [h.took, hr]
    by_cases hd : d = c
    · subst hd
      rw [Function.update_self, htook]
    · rw [Function.update_of_ne hd]
  nodup := h.nodup
  respects := by
    apply h.respects.append
    intro d hm x hx
    by_cases hd : d = c
    · subst hd
      obtain ⟨l, htaken⟩ := h.mem_fst hm
      rcases hnew with hnew | hnew
      · rw [hnew] at htaken
        cases htaken
      · exact hnew x hx
    · exact (hown d hd x hx).1
  label := hl.trans h.label

/-- The write of `meta` puts the call last. -/
theorem write {label : String} (h : Ordered first es w order) (hp : w.renames c = .stored label)
    (hr : u.renames = Function.update w.renames c (.renamed label)) (hl : u.label = label) :
    Ordered first (es ++ []) u (order ++ [(c, label)]) := by
  have hnot : c ∉ order.map Prod.fst := by
    intro hm
    obtain ⟨l, htook⟩ := h.mem_fst hm
    rw [hp] at htook
    cases htook
  rw [List.append_nil]
  refine ⟨?_, ?_, ?_, ?_, ?_, ?_⟩
  · intro d l
    rw [h.called, hr]
    by_cases hd : d = c
    · subst hd
      rw [Function.update_self, hp]
      rfl
    · rw [Function.update_of_ne hd]
  · intro d r
    rw [h.returned, hr]
    by_cases hd : d = c
    · subst hd
      rw [Function.update_self, hp]
      rfl
    · rw [Function.update_of_ne hd]
  · intro d l
    rw [List.mem_append, h.took, hr, List.mem_singleton, Prod.mk.injEq]
    by_cases hd : d = c
    · subst hd
      rw [Function.update_self, hp]
      simp [RenamePc.took?, eq_comm]
    · rw [Function.update_of_ne hd, or_iff_left fun hh => hd hh.1]
  · rw [List.map_append, List.map_singleton]
    exact h.nodup.append (List.nodup_singleton _) (List.disjoint_singleton.2 hnot)
  · rw [List.map_append, List.map_singleton]
    apply h.respects.snoc
    rintro x hx ⟨r, rfl⟩
    have hret := (h.returned c r).1 hx
    rw [hp] at hret
    cases hret
  · rw [hl, lastLabel, List.getLast?_concat]
    rfl

/-- A step inside one call that shows nothing. -/
theorem silent (h : Ordered first es w order) (c : Nat) (pc : RenamePc)
    (hr : u.renames = Function.update w.renames c pc) (hu : u.label = w.label)
    (hl : pc.label? = (w.renames c).label?) (hret : pc.result? = (w.renames c).result?)
    (ht : pc.took? = (w.renames c).took?) : Ordered first (es ++ []) u order := by
  apply h.move c pc hr hu (fun d _ x hx => absurd hx List.not_mem_nil) _ _ ht
  · exact .inr fun x hx => absurd hx List.not_mem_nil
  · intro l
    rw [hl, or_iff_left List.not_mem_nil]
  · intro r
    rw [hret, or_iff_left List.not_mem_nil]

/-- A call returns. -/
theorem returns (h : Ordered first es w order) (c : Nat) (label : String)
    (r : Except ErrorCode SessionMeta)
    (hr : u.renames = Function.update w.renames c (.returned label r)) (hu : u.label = w.label)
    (hl : (w.renames c).label? = some label) (hnot : (w.renames c).result? = none)
    (ht : (RenamePc.returned label r).took? = (w.renames c).took?) :
    Ordered first (es ++ [.returned c r]) u order := by
  have hcalled (d : Nat) : ∀ x ∈ [RenameEvent.returned c r], ¬ Called d x := by
    rintro x hx ⟨l, rfl⟩
    cases List.mem_singleton.1 hx
  apply h.move c (.returned label r) hr hu _ _ _ ht (.inr (hcalled c))
  · intro d hd x hx
    refine ⟨hcalled d x hx, ?_⟩
    rintro ⟨r', rfl⟩
    cases List.mem_singleton.1 hx
    exact hd rfl
  · intro l
    rw [hl, or_iff_left fun hm => hcalled c _ hm ⟨l, rfl⟩]
    rfl
  · intro r'
    rw [hnot, or_iff_right nofun, List.mem_singleton, RenameEvent.returned.injEq, eq_comm,
      and_iff_right rfl]
    exact Option.some_inj

/-- A call is made. -/
theorem calls (h : Ordered first es w order) (c : Nat) (label : String)
    (hp : w.renames c = .idle)
    (hr : u.renames = Function.update w.renames c (.called label)) (hu : u.label = w.label) :
    Ordered first (es ++ [.called c label]) u order := by
  have hnone : (w.renames c).took? = none := by
    rw [hp]
    rfl
  apply h.move c (.called label) hr hu _ _ _ hnone.symm (.inl hnone)
  · intro d hd x hx
    rw [List.mem_singleton.1 hx]
    constructor
    · rintro ⟨l, hl⟩
      cases hl
      exact hd rfl
    · rintro ⟨r, hr⟩
      cases hr
  · intro l
    rw [hp, List.mem_singleton, RenameEvent.called.injEq, or_iff_right nofun, eq_comm,
      and_iff_right rfl]
    exact Option.some_inj
  · intro r
    rw [hp, List.mem_singleton]
    exact ⟨nofun, fun hh => by rcases hh with hh | hh <;> cases hh⟩

theorem step (h : Ordered first es w order) (hs : Step w e u) :
    ∃ order', Ordered first (es ++ e) u order' := by
  cases hs with
  | call c label hp hc ha => exact ⟨_, h.calls c label hp rfl rfl⟩
  | rename c label hp => exact ⟨_, h.write hp rfl rfl⟩
  | lock c label hp hl =>
    exact ⟨_, h.silent c (.locked label) rfl rfl (by rw [hp]; rfl) (by rw [hp]; rfl)
      (by rw [hp]; rfl)⟩
  | check c label hp hr =>
    exact ⟨_, h.silent c (.checked label) rfl rfl (by rw [hp]; rfl) (by rw [hp]; rfl)
      (by rw [hp]; rfl)⟩
  | store c label table hp ht =>
    exact ⟨_, h.silent c (.stored label) rfl rfl (by rw [hp]; rfl) (by rw [hp]; rfl)
      (by rw [hp]; rfl)⟩
  | changed c label hp hl =>
    exact ⟨_, h.silent c (.changed label) rfl rfl (by rw [hp]; rfl) (by rw [hp]; rfl)
      (by rw [hp]; rfl)⟩
  | refuse c label hp hr =>
    exact ⟨_, h.returns c label _ rfl rfl (by rw [hp]; rfl) (by rw [hp]; rfl) (by rw [hp]; rfl)⟩
  | lose c label hp =>
    exact ⟨_, h.returns c label _ rfl rfl (by rw [hp]; rfl) (by rw [hp]; rfl) (by rw [hp]; rfl)⟩
  | finish c label hp hl =>
    exact ⟨_, h.returns c label _ rfl rfl (by rw [hp]; rfl) (by rw [hp]; rfl) (by rw [hp]; rfl)⟩
  | _ => exact ⟨_, h.still rfl rfl⟩

end Ordered

theorem run_ordered {info : SessionInfo} {label : String} {table : SessionTable}
    (hr : Run Step (start s info label table) es w) : ∃ order, Ordered label es w order :=
  hr.invariant (I := fun es w => ∃ order, Ordered label es w order)
    ⟨[], ordered_start s info label table⟩ fun ⟨_, h⟩ hs => h.step hs

/-- Two renames overlap: the first to write is the last to return. -/
theorem raced : ∃ es w, Run Step
    (start .init ⟨.fill 1, .fill 2, 1, 80, 24⟩ "first" ⟨∅⟩) es w ∧
      w.create = .created ∧ w.Finished ∧ w.label = "b" ∧ .called 0 "a" ∈ es ∧
      ∃ before m, es = before ++ [.returned 0 (.ok m)] := by
  have hcalled := (((Run.single (Step.clone (start .init ⟨.fill 1, .fill 2, 1, 80, 24⟩ "first" ⟨∅⟩)
    rfl rfl)).snoc (.saved _ _ rfl)).snoc (.call _ 0 "a" rfl rfl rfl)).snoc
    (.call _ 1 "b" rfl rfl rfl)
  have hfirst := (((hcalled.snoc (.lock _ 0 _ rfl rfl)).snoc (.check _ 0 _ rfl rfl)).snoc
    (.store _ 0 _ _ rfl rfl)).snoc (.rename _ 0 _ rfl)
  have hsecond := (((hfirst.snoc (.lock _ 1 _ rfl rfl)).snoc (.check _ 1 _ rfl rfl)).snoc
    (.store _ 1 _ _ rfl rfl)).snoc (.rename _ 1 _ rfl)
  have hreturned := (((hsecond.snoc (.changed _ 1 _ rfl rfl)).snoc (.finish _ 1 _ rfl rfl)).snoc
    (.changed _ 0 _ rfl rfl)).snoc (.finish _ 0 _ rfl rfl)
  have hexit := (((hreturned.snoc (.life _ _ _ (.exit _ true rfl) (.inl rfl) nofun
    (.inl rfl))).snoc (.life _ _ _ (.wait _) (.inl rfl) nofun (.inl rfl))).snoc
    (.life _ _ _ (.wait _) (.inl rfl) nofun (.inl rfl))).snoc
    (.life _ _ _ (.wait _) (.inl rfl) nofun (.inl rfl))
  have hmarked := ((hexit.snoc (.life _ _ _ (.wait _) (.inr rfl) nofun (.inl rfl))).snoc
    (.life _ _ _ (.wait _) (.inl rfl) nofun (.inl rfl))).snoc
    (.life _ _ _ (.wait _) (.inr rfl) nofun (.inl rfl))
  have hsaved := (hmarked.snoc (.copy _ rfl rfl rfl)).snoc (.save _ _ true rfl rfl)
  refine ⟨_, _, hsaved, rfl, ⟨⟨rfl, fun _ h => (List.not_mem_nil h).elim⟩, ?_⟩, rfl,
    List.mem_cons_self .., [.called 0 "a", .called 1 "b", .returned 1 (.ok _)], _, rfl⟩
  intro c
  match c with
  | 0 | 1 | _ + 2 => rfl

/-- When all calls have come to their end, the label in the table is the one in memory: that of
the last rename, in the order in which they wrote it, which keeps the order of calls that did
not overlap. -/
theorem rename_linear {info : SessionInfo} {label : String} {table : SessionTable}
    (hr : Run Step (start s info label table) es w) (hc : w.create = .created)
    (hf : w.Finished) :
    w.stored? = some w.label ∧ ∃ order : List (Nat × String),
      (∀ c l, (c, l) ∈ order ↔ .called c l ∈ es ∧ ∃ m, .returned c (.ok m) ∈ es) ∧
        (order.map Prod.fst).Nodup ∧ Respects Called Returned es (order.map Prod.fst) ∧
        w.label = lastLabel label order := by
  have h := run_consistent hr
  obtain ⟨order, ho⟩ := run_ordered hr
  constructor
  · have hfree : w.holder = none := by
      rw [Option.eq_none_iff_forall_ne_some]
      intro c hl
      have hholds := (h.holder c).2 hl
      have hdone := hf.2 c
      cases hp : w.renames c with
      | locked | checked | stored => rw [hp] at hdone; cases hdone
      | _ => rw [hp] at hholds; cases hholds
    have hstored := h.durable hc
    rw [pending, hfree] at hstored
    exact hstored
  · refine ⟨order, ?_, ho.nodup, ho.respects, ho.label⟩
    intro c l
    rw [ho.took, ho.called]
    simp only [ho.returned]
    have hdone := hf.2 c
    cases hp : w.renames c with
    | idle => exact iff_of_false nofun (fun hh => by cases hh.1)
    | returned l' r =>
      cases r with
      | ok m => exact ⟨fun ht => ⟨ht, m, rfl⟩, fun hh => hh.1⟩
      | error code => exact iff_of_false nofun (fun ⟨_, _, hm⟩ => by cases hm)
    | _ =>
      rw [hp] at hdone
      cases hdone

theorem rename_linear_raced : ∃ es w,
    Run Step (start .init ⟨.fill 1, .fill 2, 1, 80, 24⟩ "first" ⟨∅⟩) es w ∧
      w.create = .created ∧ w.Finished ∧ w.stored? = some w.label := by
  obtain ⟨es, w, hr, hc, hf, _⟩ := raced
  exact ⟨es, w, hr, hc, hf, (rename_linear hr hc hf).1⟩

/-- The label left need not be that of the rename that returned last. -/
theorem rename_returns_late : ¬ ∀ (s : Session) info first table es w,
    Run Step (start s info first table) es w → w.create = .created → w.Finished →
      ∀ before c label m, es = before ++ [.returned c (.ok m)] → .called c label ∈ es →
        w.label = label := by
  intro h
  obtain ⟨es, w, hr, hc, hf, hlabel, hcall, before, m, he⟩ := raced
  have hlast := h _ _ _ _ es w hr hc hf before 0 "a" m he hcall
  rw [hlabel] at hlast
  exact absurd hlast (by decide)

end RenameWorld
end RemoteCodex
