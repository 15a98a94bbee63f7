import RemoteCodex.Lib.Trace
import RemoteCodex.Agent.SessionInput

namespace RemoteCodex
set_option autoImplicit true
open Trace

inductive Lifecycle where
  | starting
  | running
  | closing
  | exited
  | lost
  deriving DecidableEq

/-- The states in which a session ends. -/
def Lifecycle.terminal : Lifecycle → Bool
  | .exited | .lost => true
  | _ => false

/-- What a call of `close` does next. -/
inductive ClosePc where
  | swap
  | revoke
  | mark
  | kill
  | signal
  | release
  | notify
  | done
  deriving DecidableEq

/-- What the thread that waits for the child does next; `ok` tells how the wait ended. -/
inductive WaitPc where
  | wait
  | upgrade (ok : Bool)
  | store (ok : Bool)
  | revoke (ok : Bool)
  | mark (ok : Bool)
  | signal
  | notify
  | save
  | done

namespace WaitPc

/-- The thread has a strong reference to the session. -/
def holds : WaitPc → Bool
  | .wait | .upgrade _ | .done => false
  | _ => true

/-- The thread is past the place where it writes the state. -/
def written : WaitPc → Bool
  | .signal | .notify | .save | .done => true
  | _ => false

end WaitPc

inductive LifeEvent where
  | state (l : Lifecycle)
  | changed (reason : String)
  | saved (l : Lifecycle)
  deriving DecidableEq

/-- A session with the calls of `close` and the wait thread. `lifecycle` is `meta.state`, and
`alive` tells whether the session still exists. -/
structure LifeWorld where
  s : Session
  lifecycle : Lifecycle
  master : Bool
  killed : Bool
  alive : Bool
  closers : List ClosePc
  waiter : WaitPc

namespace LifeWorld

/-- A session that was just created. -/
def start (s : Session) : LifeWorld :=
  ⟨{ s with running := true }, .running, true, false, true, [], .wait⟩

def revokeAll (w : LifeWorld) : LifeWorld :=
  { w with s := w.s.setLease w.s.input.lease.revokeAll }

/-- `stop.try_send(())`, on a channel that holds one message -/
def signalStop (w : LifeWorld) : LifeWorld := { w with s := { w.s with stop := true } }

/-- One atomic action of a call of `close`. -/
def close (w : LifeWorld) : ClosePc → LifeWorld × ClosePc × List LifeEvent
  | .swap =>
    ({ w with s := { w.s with running := false } },
      if w.s.running then .revoke else .release, [])
  | .revoke => (w.revokeAll, .mark, [])
  | .mark => ({ w with lifecycle := .closing }, .kill, [.state .closing])
  | .kill => ({ w with killed := true }, .signal, [])
  | .signal => (w.signalStop, .release, [])
  | .release => ({ w with master := false }, .notify, [])
  | .notify => (w, .done, [.changed "closed"])
  | .done => (w, .done, [])

def exitState (ok : Bool) : Lifecycle := if ok then .exited else .lost

/-- One atomic action of the wait thread after the child has exited. -/
def wait (w : LifeWorld) : WaitPc → LifeWorld × WaitPc × List LifeEvent
  | .wait => (w, .wait, [])
  | .upgrade ok => (w, if w.alive then .store ok else .done, [])
  | .store ok => ({ w with s := { w.s with running := false } }, .revoke ok, [])
  | .revoke ok => (w.revokeAll, .mark ok, [])
  | .mark ok => ({ w with lifecycle := exitState ok }, .signal, [.state (exitState ok)])
  | .signal => (w.signalStop, .notify, [])
  | .notify => (w, .save, [.changed "exited"])
  | .save => (w, .done, [.saved w.lifecycle])
  | .done => (w, .done, [])

/-- The steps of the calls of `close` and of the wait thread. What else happens to a session
leaves its state and its running flag alone. -/
inductive Step : LifeWorld → List LifeEvent → LifeWorld → Prop where
  | call (w : LifeWorld) (ha : w.alive = true) :
      Step w [] { w with closers := w.closers ++ [.swap] }
  | close (w : LifeWorld) (pc : ClosePc) (before after : List ClosePc)
      (hc : w.closers = before ++ pc :: after) :
      Step w (w.close pc).2.2
        { (w.close pc).1 with closers := before ++ (w.close pc).2.1 :: after }
  | exit (w : LifeWorld) (ok : Bool) (hp : w.waiter = .wait) :
      Step w [] { w with waiter := .upgrade ok }
  | wait (w : LifeWorld) :
      Step w (w.wait w.waiter).2.2 { (w.wait w.waiter).1 with waiter := (w.wait w.waiter).2.1 }
  | drop (w : LifeWorld) (hc : ∀ pc ∈ w.closers, pc = .done) (hw : w.waiter.holds = false) :
      Step w [] { w.signalStop with alive := false, killed := true, master := false }
  | other (w : LifeWorld) (s : Session) (hr : s.running = w.s.running) : Step w [] { w with s }

/-- Both `close` and the wait thread have finished. -/
def Finished (w : LifeWorld) : Prop := w.waiter = .done ∧ ∀ pc ∈ w.closers, pc = .done

/-- The steps in which `close` writes its state only while the wait thread has not written. -/
def InTime (w : LifeWorld) (e : List LifeEvent) (u : LifeWorld) : Prop :=
  Step w e u ∧ (.state .closing ∈ e → w.waiter.written = false)

theorem Step.inTime (hs : Step w e u) (he : .state .closing ∉ e) : InTime w e u :=
  ⟨hs, fun h => absurd h he⟩

/-- The final states are those that the wait thread wrote. -/
structure Settled (w : LifeWorld) : Prop where
  written : w.lifecycle.terminal = true → w.waiter.written = true
  terminal : w.waiter.written = true → w.alive = true → w.lifecycle.terminal = true
  called : w.alive = false → ∀ pc ∈ w.closers, pc = .done

theorem settled_start (s : Session) : Settled (start s) :=
  ⟨fun h => (by cases h), fun h => (by cases h), fun h => (by cases h)⟩

theorem exitState_terminal (ok : Bool) : (exitState ok).terminal = true := by
  cases ok <;> rfl

/-- What an action of `close` changes of the state. -/
theorem close_lifecycle (w : LifeWorld) (pc : ClosePc) :
    (w.close pc).1.lifecycle = (if pc = .mark then .closing else w.lifecycle) ∧
      (w.close pc).1.waiter = w.waiter ∧ (w.close pc).1.alive = w.alive ∧
      (.state .closing ∈ (w.close pc).2.2 ↔ pc = .mark) := by
  cases pc with
  | mark => exact ⟨rfl, rfl, rfl, iff_of_true (List.mem_singleton_self _) rfl⟩
  | notify =>
    refine ⟨rfl, rfl, rfl, iff_of_false ?_ ClosePc.noConfusion⟩
    intro h
    cases List.mem_singleton.1 h
  | _ => exact ⟨rfl, rfl, rfl, iff_of_false List.not_mem_nil ClosePc.noConfusion⟩

theorem wait_not_closing (w : LifeWorld) (pc : WaitPc) : .state .closing ∉ (w.wait pc).2.2 := by
  cases pc with
  | mark ok =>
    rw [wait, List.mem_singleton]
    cases ok <;> decide
  | notify | save =>
    intro h
    cases List.mem_singleton.1 h
  | _ => exact List.not_mem_nil

theorem Settled.close (h : Settled w) {pc : ClosePc} (hc : w.closers = before ++ pc :: after)
    (ht : pc = .mark → w.waiter.written = false) :
    Settled { (w.close pc).1 with closers := before ++ (w.close pc).2.1 :: after } ∧
      (w.lifecycle.terminal = true → (w.close pc).1.lifecycle = w.lifecycle) := by
  obtain ⟨hl, hw, ha, _⟩ := w.close_lifecycle pc
  have hpc : w.alive = false → pc = .done := by
    intro hd
    apply h.called hd
    rw [hc]
    exact List.mem_append_right _ (List.mem_cons_self ..)
  have hcalled : w.alive = false → ∀ q ∈ before ++ (w.close pc).2.1 :: after, q = .done := by
    intro hd q hq
    have hdone := h.called hd
    rw [hc] at hdone
    rcases List.mem_append.1 hq with hq | hq
    · exact hdone q (List.mem_append_left _ hq)
    · rcases List.mem_cons.1 hq with rfl | hq
      · rw [hpc hd]
        rfl
      · exact hdone q (List.mem_append_right _ (List.mem_cons_of_mem _ hq))
  by_cases hm : pc = .mark
  · have hnot := ht hm
    rw [if_pos hm] at hl
    constructor
    · constructor
      · intro hterm
        simp only [hl] at hterm
        cases hterm
      · intro hwr
        simp only [hw, hnot] at hwr
        cases hwr
      · simp only [ha]
        exact hcalled
    · intro hterm
      rw [h.written hterm] at hnot
      cases hnot
  · rw [if_neg hm] at hl
    refine ⟨⟨?_, ?_, ?_⟩, fun _ => hl⟩
    · simp only [hl, hw]
      exact h.written
    · simp only [hl, hw, ha]
      exact h.terminal
    · simp only [ha]
      exact hcalled

theorem Settled.wait (h : Settled w) :
    Settled { (w.wait w.waiter).1 with waiter := (w.wait w.waiter).2.1 } ∧
      (w.lifecycle.terminal = true → (w.wait w.waiter).1.lifecycle = w.lifecycle) := by
  obtain ⟨hwritten, hterminal, hcalled⟩ := h
  cases hw : w.waiter with
  | mark ok =>
    rw [hw] at hwritten
    refine ⟨⟨fun _ => rfl, fun _ _ => exitState_terminal ok, hcalled⟩, ?_⟩
    intro hterm
    cases hwritten hterm
  | upgrade ok =>
    rw [hw] at hwritten
    refine ⟨⟨fun hterm => (by cases hwritten hterm), ?_, hcalled⟩, fun _ => rfl⟩
    intro hwr ha
    simp only [LifeWorld.wait] at hwr ha
    rw [if_pos ha] at hwr
    cases hwr
  | wait | store ok | revoke ok =>
    rw [hw] at hwritten hterminal
    exact ⟨⟨hwritten, hterminal, hcalled⟩, fun _ => rfl⟩
  | signal | notify | save | done =>
    rw [hw] at hwritten hterminal
    exact ⟨⟨hwritten, hterminal, hcalled⟩, fun _ => rfl⟩

/-- A step in time keeps the state settled, and leaves a final state alone. -/
theorem InTime.settled (hs : InTime w e u) (h : Settled w) :
    Settled u ∧ (w.lifecycle.terminal = true → u.lifecycle = w.lifecycle) := by
  obtain ⟨hs, ht⟩ := hs
  cases hs with
  | call ha =>
    refine ⟨⟨h.written, h.terminal, ?_⟩, fun _ => rfl⟩
    intro hd
    rw [ha] at hd
    cases hd
  | close pc before after hc =>
    exact h.close hc fun hm => ht ((w.close_lifecycle pc).2.2.2.2 hm)
  | exit ok hp =>
    refine ⟨⟨?_, ?_, h.called⟩, fun _ => rfl⟩
    · intro hterm
      have hw := h.written hterm
      rw [hp] at hw
      cases hw
    · intro hwr
      cases hwr
  | wait => exact h.wait
  | drop hc hw => exact ⟨⟨h.written, fun _ ha => (by cases ha), fun _ => hc⟩, fun _ => rfl⟩
  | other s hr => exact ⟨⟨h.written, h.terminal, h.called⟩, fun _ => rfl⟩

theorem run_settled (hr : Run InTime w es u) (h : Settled w) :
    Settled u ∧ (w.lifecycle.terminal = true → u.lifecycle = w.lifecycle) := by
  apply hr.preserves (P := fun u => Settled u ∧ (w.lifecycle.terminal = true →
    u.lifecycle = w.lifecycle)) ⟨h, fun _ => rfl⟩
  intro t e u ⟨ht, hsame⟩ hs
  obtain ⟨hu, hstep⟩ := hs.settled ht
  refine ⟨hu, fun hterm => ?_⟩
  have heq := hsame hterm
  rw [hstep (by rw [heq]; exact hterm), heq]

/-- As long as `close` writes in time, a final state stays and every session reaches one; a
write that is late takes it away. -/
theorem lifecycle_terminal {s : Session} (hr : Run InTime (start s) es w) :
    (∀ fs u, Run InTime w fs u →
      (w.lifecycle.terminal = true → u.lifecycle = w.lifecycle) ∧
        (u.Finished → u.alive = true → u.lifecycle.terminal = true)) ∧
      ∀ e u, Step w e u → ¬ (.state .closing ∈ e → w.waiter.written = false) →
        w.lifecycle.terminal = true ∧ u.lifecycle = .closing := by
  obtain ⟨h, _⟩ := run_settled hr (settled_start s)
  constructor
  · intro fs u hu
    obtain ⟨hset, hsame⟩ := run_settled hu h
    refine ⟨hsame, fun ⟨hdone, _⟩ ha => hset.terminal ?_ ha⟩
    rw [hdone]
    rfl
  · intro e u hs hlate
    rw [Classical.not_imp, Bool.not_eq_false] at hlate
    obtain ⟨he, hwr⟩ := hlate
    cases hs with
    | close pc before after hc =>
      obtain ⟨hl, _, _, hmark⟩ := w.close_lifecycle pc
      have hm := hmark.1 he
      subst hm
      refine ⟨h.terminal hwr ?_, hl⟩
      rw [← Bool.not_eq_false]
      intro hd
      have hmem : ClosePc.mark ∈ w.closers := by
        rw [hc]
        exact List.mem_append_right _ (List.mem_cons_self ..)
      cases h.called hd _ hmem
    | wait => exact absurd he (w.wait_not_closing w.waiter)
    | _ => cases he

/-- A session is closed, and then its child exits. -/
theorem lifecycle_terminal_closed :
    ∃ (es : List LifeEvent) (w : LifeWorld), Run InTime (start .init) es w ∧
      .state .closing ∈ es ∧ w.Finished ∧ w.lifecycle = .exited ∧
        ∀ e u, Step w e u → ¬ (.state .closing ∈ e → w.waiter.written = false) →
          u.lifecycle = .closing := by
  have hwait (w : LifeWorld) := (Step.wait w).inTime (w.wait_not_closing w.waiter)
  have hcalled := ((Run.single ((Step.call (start .init) rfl).inTime (by decide))).snoc
    ((Step.close _ .swap [] [] rfl).inTime (by decide))).snoc
    ((Step.close _ .revoke [] [] rfl).inTime (by decide))
  have hclosing := (hcalled.snoc ⟨.close _ .mark [] [] rfl, fun _ => rfl⟩).snoc
    ((Step.close _ .kill [] [] rfl).inTime (by decide))
  have hclosed := ((hclosing.snoc ((Step.close _ .signal [] [] rfl).inTime (by decide))).snoc
    ((Step.close _ .release [] [] rfl).inTime (by decide))).snoc
    ((Step.close _ .notify [] [] rfl).inTime (by decide))
  have hexit := (((hclosed.snoc ((Step.exit _ true rfl).inTime (by decide))).snoc
    (hwait _)).snoc (hwait _)).snoc (hwait _)
  have hmarked := (((hexit.snoc (hwait _)).snoc (hwait _)).snoc (hwait _)).snoc (hwait _)
  obtain ⟨_, hlate⟩ := lifecycle_terminal hmarked
  exact ⟨_, _, hmarked, by decide, ⟨rfl, by decide⟩, rfl, fun e u hs hl => (hlate e u hs hl).2⟩

/-- The child exits between the swap and the write of `close`: the state that the wait thread
wrote is lost, and the session is left in `Closing`. -/
theorem lifecycle_overwritten :
    ∃ (es fs : List LifeEvent) (w u : LifeWorld), Run Step (start .init) es w ∧ Run Step w fs u ∧
      w.lifecycle = .exited ∧ u.lifecycle = .closing ∧ u.Finished ∧ u.alive = true := by
  have hcall := ((Run.single (Step.call (start .init) rfl)).snoc
    (.close _ .swap [] [] rfl)).snoc (.close _ .revoke [] [] rfl)
  have hexit := (((hcall.snoc (.exit _ true rfl)).snoc (.wait _)).snoc (.wait _)).snoc (.wait _)
  have hmarked := hexit.snoc (.wait _)
  exact ⟨_, _, _, _, hmarked, (((((((Run.single (.close _ .mark [] [] rfl)).snoc
    (.close _ .kill [] [] rfl)).snoc (.close _ .signal [] [] rfl)).snoc
    (.close _ .release [] [] rfl)).snoc (.close _ .notify [] [] rfl)).snoc (.wait _)).snoc
    (.wait _)).snoc (.wait _), rfl, rfl, ⟨rfl, by decide⟩, rfl⟩

end LifeWorld
end RemoteCodex
