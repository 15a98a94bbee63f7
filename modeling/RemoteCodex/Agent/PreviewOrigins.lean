import RemoteCodex.Lib.WriteOnce
import RemoteCodex.Client.UuidText
import RemoteCodex.Agent.PreviewAccess

namespace RemoteCodex
set_option autoImplicit true
open Trace WriteOnce

/-- A UUID can be read off its text. -/
theorem Uuid.hyphenated_injective : Function.Injective hyphenated := by
  intro u v h
  have hread (w : Uuid) : Client.uuidBytes (Js.str w.hyphenated) = .ok w.bytes := by
    apply Client.uuidBytes_text
    rw [Client.str_hyphenated, Client.lower_groups]
  have hu := hread u
  rw [h, hread v] at hu
  obtain ⟨bytes, hlen⟩ := u
  obtain ⟨bytes', hlen'⟩ := v
  cases hu
  rfl

namespace Preview

/-- The durable table of the preview origins, each with the text of its project's id. -/
structure SlotTable where
  rows : AList fun _ : String => String

namespace SlotTable

/-- The transaction of the store; without a result it changes nothing. -/
def reservePreviewSlot (t : SlotTable) (origin : String) (project : Uuid) : Option SlotTable :=
  match t.rows.lookup origin with
  | some old => if old ≠ project.hyphenated then none else some t
  | none => some ⟨t.rows.insert origin project.hyphenated⟩

/-- The origin of the gateway is bound to its project. -/
def Holds (t : SlotTable) (g : Entry) : Prop :=
  t.rows.lookup g.info.origin = some g.info.projectId.hyphenated

theorem reserve_eq (t : SlotTable) (origin : String) (project : Uuid) :
    t.reservePreviewSlot origin project =
      (enter t.rows origin project.hyphenated).map SlotTable.mk := by
  unfold reservePreviewSlot enter
  cases t.rows.lookup origin with
  | none => rfl
  | some old =>
    simp only
    split <;> rfl

theorem reserve_enter (h : reservePreviewSlot t origin project = some t') :
    enter t.rows origin project.hyphenated = some t'.rows := by
  rw [reserve_eq, Option.map_eq_some_iff] at h
  obtain ⟨rows, hrows, rfl⟩ := h
  exact hrows

theorem Holds.later {t t' : SlotTable} (h : Holds t g) (he : Extends t.rows t'.rows) :
    t'.Holds g :=
  he _ _ h

/-- Two gateways with one origin, both bound in one table, are of one project. -/
theorem Holds.project (h : Holds t g) (h' : Holds t g') (ho : g.info.origin = g'.info.origin) :
    g.info.projectId = g'.info.projectId := by
  unfold Holds at h h'
  rw [← ho] at h'
  exact Uuid.hyphenated_injective (Option.some.inj (h.symm.trans h'))

end SlotTable

/-- A call of `reserve_preview_slot`, on a thread of its own: the request may end before it. -/
inductive Call where
  | idle
  | running (origin : String) (project : Uuid)
  | finished (reserved : Bool)

/-- The agent with its store. A request from `bind` on has a listener, which the gateway takes over
when it is served. -/
structure Host where
  agent : World
  slots : SlotTable
  listeners : Nat → Option Nat
  calls : Nat → Call

/-- The request is between the check of its principal and its end. -/
def Task.registering : Task → Bool
  | .allowed (.register _) _ | .reserving _ => true
  | _ => false

namespace Host

def start (slots : SlotTable) (auth : Auth) (now : Nat) : Host :=
  ⟨.start auth now, slots, fun _ => none, fun _ => .idle⟩

/-- No socket of the agent listens on the port. -/
def Free (h : Host) (port : Nat) : Prop :=
  (∀ n, h.listeners n ≠ some port) ∧
    ∀ g ∈ h.agent.gateways, g.info.gatewayPort = port → g.stop ∈ h.agent.stopped

theorem Free.quiet {h : Host} (hl : ∀ n, h.listeners n = none) (hg : h.agent.gateways = []) :
    h.Free port where
  left := by
    intro n
    rw [hl n]
    intro h
    cases h
  right := by
    intro g hm
    rw [hg] at hm
    cases hm

/-- The request takes the mutex with its entry. -/
structure Enters (h : Host) (bindPort n : Nat) (e : Entry) : Prop where
  entry : ∃ (body : Register) (p : Principal) (id : Uuid) (origin : String) (pid created : Nat),
    h.agent.tasks n = .allowed (.register body) p ∧ body.check bindPort = .ok () ∧
      e = body.entry id origin pid created h.agent.nextStop p.clientId
  listener : h.listeners n = some e.info.gatewayPort
  mutex : h.agent.consuming = none

/-- The request ends; a listener that it still has is closed. -/
def finish (h : Host) (n : Nat) (w : World) : Host :=
  { h with agent := w.setTask n .done, listeners := Function.update h.listeners n none }

/-- One atomic action, with the gateways that it serves. What `register` does is here; every other
action is one of the agent, which leaves the requests alone that register. -/
inductive Step (C : Crypto) (authority : String → Option String) (bindPort : Nat) :
    Host → List Entry → Host → Prop where
  | agent (h : Host) (fs : List Event) (w : World)
      (hs : Preview.Step C authority bindPort h.agent fs w)
      (hq : ∀ n, (h.agent.tasks n).registering = true → w.tasks n = h.agent.tasks n) :
      Step C authority bindPort h [] { h with agent := w }
  | bind (h : Host) (n : Nat) (body : Register) (p : Principal)
      (ht : h.agent.tasks n = .allowed (.register body) p) (hb : body.check bindPort = .ok ())
      (hf : h.Free (body.publicPort + 5400)) :
      Step C authority bindPort h []
        { h with listeners := Function.update h.listeners n (some (body.publicPort + 5400)) }
  | limited (h : Host) (n : Nat) (e : Entry) (code : ErrorCode) (i : Inner)
      (he : h.Enters bindPort n e) (hr : h.agent.previews.register e = (.error code, i)) :
      Step C authority bindPort h []
        (h.finish n { h.agent with previews := i, nextStop := h.agent.nextStop + 1 })
  | insert (h : Host) (n : Nat) (e : Entry) (i : Inner)
      (he : h.Enters bindPort n e) (hr : h.agent.previews.register e = (.ok (), i)) :
      Step C authority bindPort h []
        { h with
          agent := { h.agent with previews := i, nextStop := h.agent.nextStop + 1 }.setTask n
            (.reserving e)
          calls := Function.update h.calls n (.running e.info.origin e.info.projectId) }
  -- The row can be written and the call fail all the same.
  | stored (h : Host) (n : Nat) (origin : String) (project : Uuid) (t : SlotTable)
      (reported : Bool) (hc : h.calls n = .running origin project)
      (hr : h.slots.reservePreviewSlot origin project = some t) :
      Step C authority bindPort h []
        { h with slots := t, calls := Function.update h.calls n (.finished reported) }
  -- The origin is another project's, or the store fails.
  | unstored (h : Host) (n : Nat) (origin : String) (project : Uuid)
      (hc : h.calls n = .running origin project) :
      Step C authority bindPort h []
        { h with calls := Function.update h.calls n (.finished false) }
  | served (h : Host) (n : Nat) (e : Entry) (ht : h.agent.tasks n = .reserving e)
      (hc : h.calls n = .finished true) :
      Step C authority bindPort h [e]
        (h.finish n { h.agent with gateways := h.agent.gateways ++ [e] })
  | unreserved (h : Host) (n : Nat) (e : Entry) (ht : h.agent.tasks n = .reserving e)
      (hc : h.calls n = .finished false) (hm : h.agent.consuming = none) :
      Step C authority bindPort h []
        (h.finish n { h.agent with
          previews :=
            { h.agent.previews with entries := h.agent.previews.entries.erase e.info.id } })
  -- The client is gone, or the request fails where it leaves its entry in the table.
  | drop (h : Host) (n : Nat) : Step C authority bindPort h [] (h.finish n h.agent)
  | restart (h : Host) (audience : String) (now : Nat) :
      Step C authority bindPort h []
        (.start h.slots (.new h.agent.auth.store audience now) now)

end Host

/-- The gateway ports of the entries. -/
def Inner.ports (i : Inner) : List Nat := i.entries.entries.map fun x => x.2.info.gatewayPort

/-- There are few entries, each with a gateway port of its own. -/
structure Inner.Bounded (i : Inner) : Prop where
  size : Table.size i.entries ≤ 8
  ports : i.ports.Nodup

namespace Inner

theorem Bounded.empty : Bounded .empty where
  size := Nat.zero_le _
  ports := List.nodup_nil

theorem Bounded.sublist (h : Bounded i) (hs : i'.entries.entries.Sublist i.entries.entries) :
    Bounded i' where
  size := hs.length_le.trans h.size
  ports := (hs.map _).nodup h.ports

theorem Bounded.erase {id : Uuid} (h : Bounded i) (he : i'.entries = i.entries.erase id) :
    Bounded i' := by
  apply h.sublist
  rw [he]
  exact List.kerase_sublist ..

/-- `register` looks for a free place and for the port. -/
theorem Bounded.register (h : Bounded i) (hr : i.register e = (r, i')) : Bounded i' := by
  unfold Inner.register at hr
  split at hr
  · cases hr
    exact h
  · next hfree =>
    cases hr
    rw [not_or, Nat.not_le] at hfree
    constructor
    · exact (Table.size_insert_le ..).trans hfree.1
    · have hsub : ((i.entries.entries.kerase e.info.id).map fun x => x.2.info.gatewayPort).Sublist
          i.ports := (List.kerase_sublist ..).map _
      apply List.nodup_cons.2
      refine ⟨?_, hsub.nodup h.ports⟩
      intro hmem
      obtain ⟨x, hx, hport⟩ := List.mem_map.1 (hsub.subset hmem)
      exact hfree.2 (List.any_eq_true.2 ⟨x, hx, beq_iff_eq.2 hport⟩)

theorem launch_entries {ticket : String} {id : Uuid}
    (h : launch C i id p now ticket = (r, i')) : i'.entries = i.entries := by
  unfold launch at h
  simp only at h
  split at h
  · cases h
    rfl
  · split at h
    · cases h
      rfl
    · cases h
      rfl

theorem redeem_entries {ticket : String} {id : Uuid}
    (h : redeem C i id now ticket = (r, i')) : i'.entries = i.entries := by
  unfold redeem at h
  simp only at h
  split at h
  · cases h
    rfl
  · cases h
    rfl

theorem enter_entries {g : LaunchGrant} {credential : String}
    (h : enter C i g now credential = (r, i')) : i'.entries = i.entries := by
  unfold enter at h
  split at h
  · cases h
    rfl
  · cases h
    rfl

end Inner

/-- No action of the agent breaks the bound. -/
theorem Step.bounded (h : w.previews.Bounded) (hs : Step C authority bindPort w fs w') :
    w'.previews.Bounded := by
  have hsame (i' : Inner) (he : i'.entries = w.previews.entries) : i'.Bounded :=
    h.sublist (he ▸ .refl _)
  cases hs with
  | register n body p id origin pid created e r i ht hb hm he hr => exact h.register hr
  | unreserved n e ht hm => exact h.erase rfl
  | remove n id p ht hm => exact h.erase rfl
  | shutdown hm => exact .empty
  | launch n id p ticket r i ht hm hr => exact hsame i (Inner.launch_entries hr)
  | redeem n g ticket r i ht hm hr => exact hsame i (Inner.redeem_entries hr)
  | consumeEnd c p credential r i hc hst hp hr => exact hsame i (Inner.enter_entries hr)
  | lookup n v r i ht hm hr =>
    obtain ⟨rfl, _⟩ := authorized_spec hr
    exact hsame _ rfl
  | revokeClient id hm | blockAll hm => exact hsame _ rfl
  | _ => exact h

theorem setTask_reserving (ht : ∀ e, t ≠ .reserving e)
    (h : (World.setTask w n t).tasks m = .reserving e) : m ≠ n ∧ w.tasks m = .reserving e := by
  by_cases hm : m = n
  · rw [hm, World.setTask] at h
    simp only [Function.update_self] at h
    exact absurd h (ht e)
  · simp only [World.setTask, Function.update_of_ne hm] at h
    exact ⟨hm, h⟩

theorem Task.next_ne {r : Except ErrorCode α} {f : α → Task} (h : ∀ a, f a ≠ .reserving e) :
    Task.next r f ≠ .reserving e := by
  cases r with
  | error code => exact Task.noConfusion
  | ok a => exact h a

/-- No gateway is served, and no request comes to wait for its reservation. -/
structure Kept (w w' : World) : Prop where
  tasks : ∀ n e, w'.tasks n = .reserving e → w.tasks n = .reserving e
  gateways : w'.gateways = w.gateways
  stopped : w.stopped ⊆ w'.stopped

theorem Kept.same (ht : w'.tasks = w.tasks) (hg : w'.gateways = w.gateways)
    (hs : w'.stopped = w.stopped) : Kept w w' :=
  ⟨fun n e h => by rw [← ht, h], hg, hs ▸ Finset.Subset.refl _⟩

theorem Kept.setTask (h : Kept w w') (ht : ∀ e, t ≠ .reserving e) : Kept w (w'.setTask n t) :=
  ⟨fun m e hm => h.tasks m e (setTask_reserving ht hm).2, h.gateways, h.stopped⟩

theorem registering_next {w u : World} (h : (w.tasks n).registering = true)
    (hq : ∀ m, (w.tasks m).registering = true → (u.setTask n t).tasks m = w.tasks m) :
    t = w.tasks n := by
  rw [← hq n h]
  exact (Function.update_self n t u.tasks).symm

/-- An action keeps all this when it leaves the requests alone that register. -/
theorem Step.kept (hs : Step C authority bindPort w fs w')
    (hq : ∀ n, (w.tasks n).registering = true → w'.tasks n = w.tasks n) : Kept w w' := by
  cases hs with
  | tick | auth | flag | revokeClient | blockAll | consumeOpen | consumeTable | consumeRefused
  | consumeEnd => exact .same rfl rfl rfl
  | shutdown => exact ⟨fun _ _ h => h, rfl, Finset.subset_union_left⟩
  | register n body p id origin pid created e r i ht =>
    have hnext := registering_next (n := n) (by rw [ht]; rfl) hq
    rw [ht] at hnext
    cases r with
    | _ => cases hnext
  | reserved n e ht | unreserved n e ht =>
    have hnext := registering_next (n := n) (by rw [ht]; rfl) hq
    rw [ht] at hnext
    cases hnext
  | remove n id p ht =>
    apply Kept.setTask
    · refine ⟨fun _ _ h => h, rfl, ?_⟩
      simp only
      split
      · exact Finset.subset_insert _ _
      · exact Finset.Subset.refl _
    · exact fun e => Task.noConfusion
  | launch n | redeem n | forward n | drop n | identified n =>
    exact Kept.setTask (.same rfl rfl rfl) fun e => Task.noConfusion
  | receive n g r =>
    apply Kept.setTask (.same rfl rfl rfl)
    intro e
    apply Task.next_ne
    intro route
    cases route with
    | _ => exact Task.noConfusion
  | allow n a =>
    apply Kept.setTask (.same rfl rfl rfl)
    exact fun e => Task.next_ne fun p => Task.noConfusion
  | lookup n v r i ht | ensureOpen n v client ht | table n v client ht | require n v client p ht =>
    apply Kept.setTask
    · exact .same rfl rfl rfl
    · exact fun e => Task.next_ne fun _ => Task.noConfusion
  | changed n v client identity ht =>
    exact Kept.setTask ⟨fun _ _ h => h, rfl, Finset.subset_insert _ _⟩ fun e => Task.noConfusion

/-- The request can be answered: its call was made for the entry's origin and project, and what the
call reports is in the store. -/
def Call.Answers (t : SlotTable) (e : Entry) : Call → Prop
  | .idle => False
  | .running origin project => origin = e.info.origin ∧ project = e.info.projectId
  | .finished true => t.Holds e
  | .finished false => True

theorem Call.Answers.later {c : Call} {t t' : SlotTable} (h : c.Answers t e)
    (he : Extends t.rows t'.rows) : c.Answers t' e := by
  cases c with
  | idle => exact h
  | running origin project => exact h
  | finished reserved =>
    cases reserved with
    | false => trivial
    | true => exact SlotTable.Holds.later h he

namespace Host

/-- The agent of the host makes at most one action, or it is started again. -/
theorem Step.refines (hs : Step C authority bindPort h gs h') :
    (∃ audience now, h'.agent = .start (.new h.agent.auth.store audience now) now) ∨
      h'.agent = h.agent ∨ ∃ fs, Preview.Step C authority bindPort h.agent fs h'.agent := by
  cases hs with
  | agent fs w hs hq => exact .inr (.inr ⟨fs, hs⟩)
  | bind | stored | unstored => exact .inr (.inl rfl)
  | limited n e code i he hr =>
    obtain ⟨body, p, id, origin, pid, created, ht, hb, heq⟩ := he.entry
    exact .inr (.inr ⟨[], .register _ n body p id origin pid created e _ i ht hb he.mutex heq hr⟩)
  | insert n e i he hr =>
    obtain ⟨body, p, id, origin, pid, created, ht, hb, heq⟩ := he.entry
    exact .inr (.inr ⟨[], .register _ n body p id origin pid created e _ i ht hb he.mutex heq hr⟩)
  | served n e ht hc => exact .inr (.inr ⟨[], .reserved _ n e ht⟩)
  | unreserved n e ht hc hm => exact .inr (.inr ⟨[], .unreserved _ n e ht hm⟩)
  | drop n => exact .inr (.inr ⟨[], .drop _ n⟩)
  | restart audience now => exact .inl ⟨audience, now, rfl⟩

theorem Step.bounded (h : w.agent.previews.Bounded) (hs : Step C authority bindPort w gs w') :
    w'.agent.previews.Bounded := by
  rcases hs.refines with ⟨audience, now, he⟩ | he | ⟨fs, hs⟩
  · rw [he]
    exact .empty
  · rw [he]
    exact h
  · exact Preview.Step.bounded h hs

/-- The store forgets no origin, and no step gives one to another project. -/
theorem Step.extends (hs : Step C authority bindPort h gs h') :
    Extends h.slots.rows h'.slots.rows := by
  cases hs with
  | stored n origin project t reported hc hr => exact enter_extends (SlotTable.reserve_enter hr)
  | _ => exact .refl _

/-- What is served is bound in the store. -/
theorem Step.holds (hs : Step C authority bindPort h gs h')
    (ha : ∀ n e, h.agent.tasks n = .reserving e → (h.calls n).Answers h.slots e) :
    ∀ g ∈ gs, h.slots.Holds g := by
  intro g hg
  cases hs with
  | served n e ht hc =>
    rw [List.mem_singleton.1 hg]
    have he := ha n e ht
    rw [hc] at he
    exact he
  | _ => cases hg

theorem Step.answers (hs : Step C authority bindPort h gs h')
    (ha : ∀ n e, h.agent.tasks n = .reserving e → (h.calls n).Answers h.slots e) :
    ∀ n e, h'.agent.tasks n = .reserving e → (h'.calls n).Answers h'.slots e := by
  intro m d hm
  cases hs with
  | agent fs w hs hq => exact ha m d ((hs.kept hq).tasks m d hm)
  | bind => exact ha m d hm
  | limited n e code i he hr => exact ha m d (setTask_reserving (fun e => Task.noConfusion) hm).2
  | insert n e i he hr =>
    by_cases hmn : m = n
    · subst hmn
      simp only [World.setTask, Function.update_self, Task.reserving.injEq] at hm
      simp only [Function.update_self]
      rw [hm]
      exact ⟨rfl, rfl⟩
    · simp only [World.setTask, Function.update_of_ne hmn] at hm
      simp only [Function.update_of_ne hmn]
      exact ha m d hm
  | stored n origin project t reported hc hr =>
    have henter := SlotTable.reserve_enter hr
    by_cases hmn : m = n
    · subst hmn
      simp only [Function.update_self]
      cases reported with
      | false => trivial
      | true =>
        have hasked := ha m d hm
        rw [hc] at hasked
        obtain ⟨rfl, rfl⟩ := hasked
        exact enter_lookup henter
    · simp only [Function.update_of_ne hmn]
      exact (ha m d hm).later (enter_extends henter)
  | unstored n origin project hc =>
    by_cases hmn : m = n
    · subst hmn
      simp only [Function.update_self]
      trivial
    · simp only [Function.update_of_ne hmn]
      exact ha m d hm
  | served n e ht hc => exact ha m d (setTask_reserving (fun e => Task.noConfusion) hm).2
  | unreserved n e ht hc hm' => exact ha m d (setTask_reserving (fun e => Task.noConfusion) hm).2
  | drop n => exact ha m d (setTask_reserving (fun e => Task.noConfusion) hm).2
  | restart audience now => cases hm

/-- No two sockets listen on one port: those of the requests and of the gateways that run. -/
structure Listening (h : Host) : Prop where
  apart : ∀ n m port, h.listeners n = some port → h.listeners m = some port → n = m
  gateways : ∀ n port, h.listeners n = some port → ∀ g ∈ h.agent.gateways,
    g.info.gatewayPort = port → g.stop ∈ h.agent.stopped
  running : h.agent.gateways.Pairwise fun g g' =>
    g.info.gatewayPort = g'.info.gatewayPort → g.stop ∈ h.agent.stopped ∨ g'.stop ∈ h.agent.stopped
  tasks : ∀ n e, h.agent.tasks n = .reserving e → h.listeners n = some e.info.gatewayPort

theorem Listening.start (slots : SlotTable) (auth : Auth) (now : Nat) :
    Listening (.start slots auth now) where
  apart := by
    intro n m port hn
    cases hn
  gateways := by
    intro n port hn
    cases hn
  running := List.Pairwise.nil
  tasks := by
    intro n e ht
    cases ht

theorem Listening.agent (hl : Listening h) (hk : Preview.Kept h.agent w) :
    Listening { h with agent := w } where
  apart := hl.apart
  gateways := by
    intro n port hn g hg hp
    rw [hk.gateways] at hg
    exact hk.stopped (hl.gateways n port hn g hg hp)
  running := by
    rw [hk.gateways]
    apply hl.running.imp
    intro g g' hstop hp
    exact (hstop hp).imp (fun hs => hk.stopped hs) fun hs => hk.stopped hs
  tasks := fun n e ht => hl.tasks n e (hk.tasks n e ht)

/-- A request that ends gives up its port. -/
theorem listeners_finish {h : Host} (hm : (h.finish n w).listeners m = some port) :
    m ≠ n ∧ h.listeners m = some port := by
  by_cases hmn : m = n
  · subst hmn
    simp only [finish, Function.update_self] at hm
    cases hm
  · simp only [finish, Function.update_of_ne hmn] at hm
    exact ⟨hmn, hm⟩

theorem Listening.finish (hl : Listening h) (hk : Preview.Kept h.agent w) :
    Listening (h.finish n w) where
  apart := by
    intro m m' port hm hm'
    exact hl.apart m m' port (listeners_finish hm).2 (listeners_finish hm').2
  gateways := by
    intro m port hm
    exact (hl.agent hk).gateways m port (listeners_finish hm).2
  running := (hl.agent hk).running
  tasks := by
    intro m e ht
    obtain ⟨hmn, ht⟩ := setTask_reserving (fun e => Task.noConfusion) ht
    simp only [Host.finish, Function.update_of_ne hmn]
    exact hl.tasks m e (hk.tasks m e ht)

theorem Listening.step (hl : Listening h) (hs : Step C authority bindPort h gs h') :
    Listening h' := by
  cases hs with
  | agent fs w hs hq => exact hl.agent (hs.kept hq)
  | bind n body p ht hb hf =>
    have hnew {m : Nat} {port : Nat}
        (hm : Function.update h.listeners n (some (body.publicPort + 5400)) m = some port) :
        m = n ∧ port = body.publicPort + 5400 ∨ m ≠ n ∧ h.listeners m = some port := by
      by_cases hmn : m = n
      · subst hmn
        rw [Function.update_self] at hm
        exact .inl ⟨rfl, (Option.some.inj hm).symm⟩
      · rw [Function.update_of_ne hmn] at hm
        exact .inr ⟨hmn, hm⟩
    constructor
    · intro m m' port hm hm'
      rcases hnew hm with ⟨rfl, rfl⟩ | ⟨_, hold⟩
      · rcases hnew hm' with ⟨rfl, _⟩ | ⟨_, hold'⟩
        · rfl
        · exact absurd hold' (hf.1 m')
      · rcases hnew hm' with ⟨rfl, rfl⟩ | ⟨_, hold'⟩
        · exact absurd hold (hf.1 m)
        · exact hl.apart m m' port hold hold'
    · intro m port hm g hg hp
      rcases hnew hm with ⟨rfl, rfl⟩ | ⟨_, hm⟩
      · exact hf.2 g hg hp
      · exact hl.gateways m port hm g hg hp
    · exact hl.running
    · intro m e hm
      have hmn : m ≠ n := by
        rintro rfl
        rw [ht] at hm
        cases hm
      simp only [Function.update_of_ne hmn]
      exact hl.tasks m e hm
  | limited n e code i he hr => exact hl.finish (.same rfl rfl rfl)
  | insert n e i he hr =>
    refine ⟨hl.apart, hl.gateways, hl.running, ?_⟩
    intro m d hm
    by_cases hmn : m = n
    · subst hmn
      simp only [World.setTask, Function.update_self, Task.reserving.injEq] at hm
      rw [← hm]
      exact he.listener
    · simp only [World.setTask, Function.update_of_ne hmn] at hm
      exact hl.tasks m d hm
  | stored | unstored => exact ⟨hl.apart, hl.gateways, hl.running, hl.tasks⟩
  | served n e ht hc =>
    have hn := hl.tasks n e ht
    have hend : Listening (h.finish n h.agent) := hl.finish (.same rfl rfl rfl)
    refine ⟨hend.apart, ?_, ?_, hend.tasks⟩
    · intro m port hm g hg hp
      obtain ⟨hmn, hm⟩ := listeners_finish hm
      rcases List.mem_append.1 hg with hg | hg
      · exact hl.gateways m port hm g hg hp
      · rw [List.mem_singleton.1 hg] at hp
        exact absurd (hl.apart m n port hm (hp ▸ hn)) hmn
    · apply List.pairwise_append.2
      refine ⟨hl.running, List.pairwise_singleton _ _, ?_⟩
      intro g hg d hd hp
      rw [List.mem_singleton.1 hd] at hp
      exact .inl (hl.gateways n _ hn g hg hp)
  | unreserved n e ht hc hm => exact hl.finish (.same rfl rfl rfl)
  | drop n => exact hl.finish (.same rfl rfl rfl)
  | restart audience now => exact .start _ _ _

/-- At any time the gateways that run have different ports. -/
theorem Listening.run {slots : SlotTable} {auth : Auth} {now : Nat}
    (hrun : Run (Step C authority bindPort) (.start slots auth now) gs h) : Listening h :=
  hrun.preserves (.start slots auth now) Listening.step

/-- What was served is bound in the store, as is what waits to be served. -/
structure Kept (gs : List Entry) (h : Host) : Prop where
  served : ∀ g ∈ gs, h.slots.Holds g
  answers : ∀ n e, h.agent.tasks n = .reserving e → (h.calls n).Answers h.slots e
  bounded : h.agent.previews.Bounded

theorem Kept.start (slots : SlotTable) (auth : Auth) (now : Nat) :
    Kept [] (.start slots auth now) where
  served := by
    intro g hg
    cases hg
  answers := by
    intro n e ht
    cases ht
  bounded := .empty

theorem Kept.step (hk : Kept gs h) (hs : Step C authority bindPort h fs h') :
    Kept (gs ++ fs) h' where
  served := by
    intro g hg
    rcases List.mem_append.1 hg with hg | hg
    · exact (hk.served g hg).later hs.extends
    · exact (hs.holds hk.answers g hg).later hs.extends
  answers := hs.answers hk.answers
  bounded := hs.bounded hk.bounded

theorem Kept.run {slots : SlotTable} {auth : Auth} {now : Nat}
    (hrun : Run (Step C authority bindPort) (.start slots auth now) gs h) : Kept gs h :=
  hrun.invariant (.start slots auth now) Kept.step

end Host

/-- All gateways that are ever served for an origin are of one project, also over restarts; a
gateway is served when its origin is bound to its project in the store, which keeps that; and there
are eight entries at most, each with a gateway port of its own. -/
theorem origin_keeps_project {slots : SlotTable} {auth : Auth} {now : Nat}
    (hrun : Run (Host.Step C authority bindPort) (.start slots auth now) gs h) :
    (∀ g ∈ gs, ∀ g' ∈ gs, g.info.origin = g'.info.origin →
        g.info.projectId = g'.info.projectId) ∧
      (∀ g h', Host.Step C authority bindPort h [g] h' → h.slots.Holds g) ∧
      (∀ g ∈ gs, h.slots.Holds g) ∧
      Table.size h.agent.previews.entries ≤ 8 ∧ h.agent.previews.ports.Nodup := by
  have hk := Host.Kept.run hrun
  refine ⟨?_, ?_, hk.served, hk.bounded.size, hk.bounded.ports⟩
  · intro g hg g' hg' ho
    exact (hk.served g hg).project (hk.served g' hg') ho
  · intro g h' hs
    exact hs.holds hk.answers g (.head _)

/-- Signatures are taken as they are. -/
def openCrypto : Crypto := { Auth.textCrypto with verify := fun _ _ _ => true }

/-- The dev server of another project, on the same port. -/
def rivalServer : Register := ⟨.fill 8, 5174, 8444⟩

def rivalGateway : Entry := rivalServer.entry (.fill 6) "https://host:8444" 101 201 0 (.fill 1)

abbrev DevHost := Host.Step openCrypto (fun _ => some "host:8444") 13843

/-- The first project once more, in the next process. -/
def laterGateway : Entry := devServer.entry (.fill 5) "https://host:8444" 102 202 1 (.fill 1)

/-- After a restart another project is refused the origin, and the first one gets it again. -/
theorem origin_keeps_project_restarted :
    ∃ gs h, [devGateway, laterGateway] = gs ∧ h.slots.Holds laterGateway ∧
      Run DevHost (.start ⟨∅⟩ ownerAuth 0) gs h ∧
      devGateway.info.projectId = laterGateway.info.projectId := by
  have h₁ : Run DevHost (.start ⟨∅⟩ ownerAuth 0) [] _ :=
    Run.single (.agent _ _ _ (.allow _ 0 (.register devServer) "a" rfl) fun _ h => by cases h)
  have h₂ := h₁.snoc (.bind _ 0 devServer owner rfl rfl
    (.quiet (fun _ => rfl) rfl))
  have h₃ := h₂.snoc (.insert _ 0 devGateway _
    ⟨⟨devServer, owner, .fill 7, "https://host:8444", 100, 200, rfl, rfl, rfl⟩, rfl, rfl⟩ rfl)
  have h₄ := h₃.snoc (.stored _ 0 "https://host:8444" (.fill 9) _ true rfl rfl)
  have h₅ := h₄.snoc (.served _ 0 devGateway rfl rfl)
  have h₆ := h₅.snoc (.restart _ "host" 0)
  have h₇ := h₆.snoc (.agent _ _ _ (.auth _ (.challenge (.fill 1) 0 "i" "n")) fun _ h => by cases h)
  have h₈ := h₇.snoc (.agent _ _ _ (.auth _ (.verify "i" "s" "a")) fun _ h => by cases h)
  have h₉ := h₈.snoc
    (.agent _ _ _ (.allow _ 0 (.register rivalServer) "a" rfl) fun _ h => by cases h)
  have h₁₀ := h₉.snoc (.bind _ 0 rivalServer owner rfl rfl
    (.quiet (fun _ => rfl) rfl))
  have h₁₁ := h₁₀.snoc (.insert _ 0 rivalGateway _
    ⟨⟨rivalServer, owner, .fill 6, "https://host:8444", 101, 201, rfl, rfl, rfl⟩, rfl, rfl⟩ rfl)
  have h₁₂ := h₁₁.snoc (.unstored _ 0 "https://host:8444" (.fill 8) rfl)
  have h₁₃ := h₁₂.snoc (.unreserved _ 0 rivalGateway rfl rfl rfl)
  have h₁₄ := h₁₃.snoc (.agent _ _ _ (.allow _ 1 (.register devServer) "a" rfl)
    fun n h => by cases n <;> cases h)
  have h₁₅ := h₁₄.snoc (.bind _ 1 devServer owner rfl rfl
    (.quiet (fun n => by cases n <;> rfl) rfl))
  have h₁₆ := h₁₅.snoc (.insert _ 1 laterGateway _
    ⟨⟨devServer, owner, .fill 5, "https://host:8444", 102, 202, rfl, rfl, rfl⟩, rfl, rfl⟩ rfl)
  have h₁₇ := h₁₆.snoc (.stored _ 1 "https://host:8444" (.fill 9) _ true rfl rfl)
  have h₁₈ := h₁₇.snoc (.served _ 1 laterGateway rfl rfl)
  obtain ⟨hone, _, hheld, _⟩ := origin_keeps_project h₁₈
  have hmem : laterGateway ∈ [devGateway, laterGateway] := .tail _ (.head _)
  exact ⟨_, _, rfl, hheld laterGateway hmem, h₁₈, hone devGateway (.head _) laterGateway hmem rfl⟩

end Preview
end RemoteCodex
