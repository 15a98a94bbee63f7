import Mathlib.Data.List.Perm.Subperm
import RemoteCodex.Agent.SessionWriter

namespace RemoteCodex
set_option autoImplicit true

/-- An input that an enqueue accepted. -/
structure Accepted where
  reply : Nat
  epoch : Nat
  seq : Nat
  data : List UInt8

def Event.accepted? : Event → Option Accepted
  | .accepted reply epoch seq data => some ⟨reply, epoch, seq, data⟩
  | _ => none

/-- The inputs accepted in a run, in order. -/
def accepts (es : List Event) : List Accepted := es.filterMap Event.accepted?

def Event.dataOf (reply : Nat) : Event → List UInt8
  | .pty .data _ r bytes _ => if r = reply then bytes else []
  | _ => []

/-- All bytes of one input that were handed to the PTY, in order, whether or not the write
succeeded. -/
def dataWritten (reply : Nat) (es : List Event) : List UInt8 := es.flatMap (Event.dataOf reply)

def Event.normalWrite? : Event → Option Nat
  | .pty .data .normal reply _ _ => some reply
  | _ => none

/-- The inputs from the normal queue, in the order in which their chunks were written. -/
def normalWrites (es : List Event) : List Nat := es.filterMap Event.normalWrite?

/-- Events that neither accept an input nor write its data. -/
def Event.quiet (e : Event) : Bool :=
  match e with
  | .accepted .. | .pty .data .. => false
  | _ => true

theorem accepts_quiet (es : List Event) (h : ∀ e ∈ fs, Event.quiet e = true) :
    accepts (es ++ fs) = accepts es := by
  have hn : fs.filterMap Event.accepted? = [] := by
    apply List.filterMap_eq_nil_iff.2
    intro e he
    have hq := h e he
    cases e <;> first | rfl | cases hq
  rw [accepts, List.filterMap_append, hn, List.append_nil, accepts]

theorem dataWritten_quiet (reply : Nat) (es : List Event) (h : ∀ e ∈ fs, Event.quiet e = true) :
    dataWritten reply (es ++ fs) = dataWritten reply es := by
  have hn : fs.flatMap (Event.dataOf reply) = [] := by
    apply List.flatMap_eq_nil_iff.2
    intro e he
    have hq := h e he
    cases e with
    | pty part => cases part <;> first | rfl | cases hq
    | _ => rfl
  rw [dataWritten, List.flatMap_append, hn, List.append_nil, dataWritten]

theorem normalWrites_quiet (es : List Event) (h : ∀ e ∈ fs, Event.quiet e = true) :
    normalWrites (es ++ fs) = normalWrites es := by
  have hn : fs.filterMap Event.normalWrite? = [] := by
    apply List.filterMap_eq_nil_iff.2
    intro e he
    have hq := h e he
    cases e with
    | pty part => cases part <;> first | rfl | cases hq
    | _ => rfl
  rw [normalWrites, List.filterMap_append, hn, List.append_nil, normalWrites]

/-- The job being written and, while its data loop runs, the data still to come. -/
structure Current where
  job : InputJob
  queue : Queue
  rest : Option (List UInt8)

/-- What the queues and the writer thread hold, without their control state. -/
structure Delivery where
  normal : List InputJob
  others : List InputJob
  current : Option Current

namespace Delivery

def waiting (d : Delivery) : List InputJob := d.normal ++ d.others

/-- A job being written keeps its remaining data, ends its data loop, or is given up. -/
inductive Fades : Option Current → Option Current → Prop where
  | same (c : Option Current) : Fades c c
  | late (job : InputJob) (queue : Queue) (rest : Option (List UInt8)) :
      Fades (some ⟨job, queue, rest⟩) (some ⟨job, queue, none⟩)
  | gone (c : Option Current) : Fades c none

/-- What one atomic action can do to the jobs in flight. -/
inductive Move : Delivery → List Event → Delivery → Prop where
  | less (d d' : Delivery) (es : List Event) (hn : d'.normal <:+ d.normal)
      (ho : d'.others.Subperm d.others) (hc : Fades d.current d'.current)
      (hq : ∀ e ∈ es, e.quiet = true) : Move d es d'
  | acceptNormal (d : Delivery) (job : InputJob) (epoch seq : Nat) :
      Move d [.accepted job.reply epoch seq job.data] { d with normal := d.normal ++ [job] }
  | acceptPriority (d : Delivery) (job : InputJob) (epoch seq : Nat) (others : List InputJob)
      (ho : others.Perm (job :: d.others)) :
      Move d [.accepted job.reply epoch seq job.data] { d with others }
  | startNormal (d : Delivery) (job : InputJob) (normal : List InputJob)
      (hn : d.normal = job :: normal) :
      Move d [] { d with normal, current := some ⟨job, .normal, some job.data⟩ }
  | startInterrupt (d : Delivery) (job : InputJob) (others : List InputJob)
      (ho : d.others.Perm (job :: others)) :
      Move d [] { d with others, current := some ⟨job, .interrupt, some job.data⟩ }
  | chunk (d : Delivery) (job : InputJob) (queue : Queue) (rest : List UInt8) (ok : Bool)
      (hc : d.current = some ⟨job, queue, some rest⟩) :
      Move d [.pty .data queue job.reply (rest.take CHUNK) ok]
        { d with current := some ⟨job, queue, if ok then some (rest.drop CHUNK) else none⟩ }

end Delivery

/-- Inside the data loop of `write_job`, or before it. -/
def Stage.looping : Stage → Bool
  | .permitted _ .start | .permitted _ .chunk | .opening | .chunk | .write => true
  | _ => false

def Writing.current (j : Writing) : Current :=
  ⟨j.job, j.queue, if j.stage.looping then some j.rest else none⟩

/-- The jobs the writer thread holds without writing them. -/
def WriterPc.held : WriterPc → List InputJob
  | .interrupted job _ => [job]
  | .writing j => j.urgent.toList
  | _ => []

def WriterPc.current : WriterPc → Option Current
  | .writing j => some j.current
  | _ => none

def World.delivery (w : World) : Delivery :=
  ⟨w.s.writer, w.s.interrupt ++ w.pc.held, w.pc.current⟩

open Delivery

theorem Writing.fades_of_stage (j : Writing) (stage : Stage)
    (h : j.stage.looping = stage.looping ∨ stage.looping = false) (p : Bool)
    (u : Option InputJob) :
    Fades (some j.current) (some (current { j with stage, prefixWritten := p, urgent := u })) := by
  rcases h with h | h
  · simp only [current, h]
    exact .same _
  · simp only [current, h, Bool.false_eq_true, ↓reduceIte]
    exact .late _ _ _

/-- The stages that failed and passed checks lead to do not restart the data loop. -/
theorem Writing.looping_check (j : Writing) (site : Site) (check : Check) :
    (∀ e, (onDenied e site).looping = false) ∧
      (j.nextCheck site check).looping = (Stage.permitted check site).looping := by
  constructor
  · intro e
    cases site <;> rfl
  · cases check <;> cases site <;> try rfl
    simp only [nextCheck, onPassed]
    split <;> rfl

theorem Writing.looping_afterSuffix (j : Writing) (result : Except ErrorCode Unit) :
    (j.afterSuffix result).looping = false := by
  cases result with
  | error e => rfl
  | ok u =>
    cases u
    simp only [afterSuffix]
    split <;> rfl

/-- Changing the stage of a job that is being written is a move that writes no data. -/
theorem Writing.goto_move (w : World) (j : Writing) (hp : w.pc = .writing j) (stage : Stage)
    (h : j.stage.looping = stage.looping ∨ stage.looping = false) (p : Bool)
    (hq : ∀ e ∈ es, Event.quiet e = true) :
    Move w.delivery es (goto w { j with prefixWritten := p } stage).delivery := by
  apply Move.less
  · exact List.suffix_rfl
  · simp only [World.delivery, goto, WriterPc.held, hp]
    exact List.Subperm.refl _
  · simp only [World.delivery, goto, WriterPc.current, hp]
    exact j.fades_of_stage stage h p j.urgent
  · exact hq

theorem Writing.step_move (w : World) (j : Writing) (io : Bool) (hp : w.pc = .writing j) :
    Move w.delivery (j.step w io).2 (j.step w io).1.delivery := by
  unfold step
  cases hs : j.stage with
  | permitted check site =>
    obtain ⟨hd, hn⟩ := j.looping_check site check
    simp only
    split
    · next e _ =>
      exact j.goto_move w hp (onDenied e site) (.inr (hd e)) j.prefixWritten (by simp)
    · exact j.goto_move w hp _ (.inl (by rw [hs, hn])) j.prefixWritten (by simp)
  | opening =>
    simp only
    split
    · exact j.goto_move w hp .chunk (.inl (by rw [hs]; rfl)) true (by simp [Event.quiet])
    · exact j.goto_move w hp (.suffix _) (.inr rfl) j.prefixWritten (by simp [Event.quiet])
  | chunk =>
    simp only
    split
    · exact j.goto_move w hp (.suffix _) (.inr rfl) j.prefixWritten (by simp)
    · split
      · split
        · next stop others hi =>
          -- the interrupt leaves its queue and becomes `urgent`
          apply Move.less
          · exact List.suffix_rfl
          · simp only [World.delivery, goto, WriterPc.held, hp, hi, Option.toList_some]
            have hperm : (others ++ [stop]).Perm (stop :: others) := List.perm_append_singleton _ _
            exact hperm.subperm.trans (List.sublist_append_left (stop :: others) _).subperm
          · simp only [World.delivery, goto, WriterPc.current, hp]
            exact j.fades_of_stage (.suffix _) (.inr rfl) j.prefixWritten (some stop)
          · simp
        · exact j.goto_move w hp _ (.inl (by rw [hs]; rfl)) j.prefixWritten (by simp)
      · exact j.goto_move w hp _ (.inl (by rw [hs]; rfl)) j.prefixWritten (by simp)
  | write =>
    have hc : w.delivery.current = some ⟨j.job, j.queue, some j.rest⟩ := by
      simp only [World.delivery, WriterPc.current, hp, Writing.current, hs, Stage.looping,
        ↓reduceIte]
    have hm := Move.chunk w.delivery j.job j.queue j.rest io hc
    simp only
    cases io with
    | true =>
      simp only [World.delivery, goto, WriterPc.current, WriterPc.held, Writing.current,
        Stage.looping, ↓reduceIte, hp] at hm ⊢
      exact hm
    | false =>
      simp only [World.delivery, goto, WriterPc.current, WriterPc.held, Writing.current,
        Stage.looping, Bool.false_eq_true, ↓reduceIte, hp] at hm ⊢
      exact hm
  | suffix result =>
    simp only
    split
    · split
      · exact j.goto_move w hp (.finish _) (.inr rfl) j.prefixWritten (by simp [Event.quiet])
      · exact j.goto_move w hp _ (.inr (j.looping_afterSuffix _)) j.prefixWritten
          (by simp [Event.quiet])
    · exact j.goto_move w hp _ (.inr (j.looping_afterSuffix _)) j.prefixWritten (by simp)
  | enter =>
    exact j.goto_move w hp (.finish _) (.inr rfl) j.prefixWritten (by simp [Event.quiet])
  | finish result =>
    apply Move.less
    · exact List.suffix_rfl
    · simp only [World.delivery, WriterPc.held, hp, Session.finishId_interrupt]
      cases j.urgent <;> exact List.Subperm.refl _
    · simp only [World.delivery]
      cases j.urgent <;> exact .gone _
    · simp [Event.quiet]

/-- An enqueue is the arrival of its job in one of the queues, or changes no queue. -/
theorem Enqueued.move {w : World} {r : Except ErrorCode InputJob}
    (h : Session.Enqueued w.s c lease seq w.nextReply r s') (n : Nat) :
    Move w.delivery (acceptEvents w.nextReply lease seq r)
      { w with s := s', nextReply := n }.delivery := by
  cases h with
  | refused e =>
    exact .less _ _ _ List.suffix_rfl (List.Subperm.refl _) (.same _) (by simp [acceptEvents])
  | full _ _ hw hi =>
    simp only [World.delivery, hw, hi]
    exact .less _ _ _ List.suffix_rfl (List.Subperm.refl _) (.same _) (by simp [acceptEvents])
  | normal _ job _ hj hw hi =>
    simp only [World.delivery, hw, hi, acceptEvents, ← hj.1]
    exact .acceptNormal _ job lease seq
  | priority _ job _ hj hw hi =>
    simp only [World.delivery, hw, hi, acceptEvents, ← hj.1]
    apply Move.acceptPriority ⟨w.s.writer, w.s.interrupt ++ w.pc.held, w.pc.current⟩ job lease seq
    simp only [List.append_assoc, List.singleton_append]
    exact List.perm_middle

end RemoteCodex
