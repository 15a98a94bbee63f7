import RemoteCodex.Lib.Ledger
import RemoteCodex.Agent.PreviewRuns
import RemoteCodex.Agent.Revocation

namespace RemoteCodex
set_option autoImplicit true
open Trace History
namespace Preview

/-- The event leaves the credentials of this preview and client alone. -/
def Event.Spares (preview client : Uuid) : Event → Prop
  | .removed id => id ≠ preview
  | .clientRevoked id => id ≠ client
  | .allBlocked => False
  | _ => True

/-- The ticket was handed to a client that may read previews. -/
def Issued (es : List Event) (ticket : String) (preview client : Uuid) (expiry : Nat) : Prop :=
  ∃ now p, .launched now ticket preview p ∈ es ∧ p.clientId = client ∧
    .previewRead ∈ p.scopes ∧ expiry = now + fromSecs 30

/-- The credential is made at the preview's gateway from a ticket that is not expired. -/
def Admitted (preview client : Uuid) (credential : String) (expiry : Nat) (before : List Event)
    (e : Event) : Prop :=
  ∃ redeemed now ticket, e = .admitted redeemed now ticket preview client credential ∧
    expiry = now + fromSecs 600 ∧
    ∃ limit, Issued before ticket preview client limit ∧ redeemed < limit

/-- The credential was made for the preview and the client, it has not expired, and nothing has
taken it back since. -/
def Entitled (preview client : Uuid) (credential : String) (now : Nat) (es : List Event) : Prop :=
  ∃ expiry, Since (Event.Spares preview client) (Admitted preview client credential expiry) es ∧
    now < expiry

/-- The task looks the credential up while it entitles the client. -/
def LookedUp (n : Nat) (v : Visit) (client : Uuid) (before : List Event) (e : Event) : Prop :=
  ∃ now, e = .lookedUp n now v.gateway.info.id client v.credential ∧
    Entitled v.gateway.info.id client v.credential now before

/-- What is known of a request that has come this far. -/
def Visited (es : List Event) (n : Nat) : Task → Prop
  | .allowed a p => a.scope ∈ p.scopes
  | .found v client => Then (LookedUp n v client) [] es
  | .opened v client => Then (LookedUp n v client) [.flagRead n false] es
  | .taken v client _ | .granted v client | .identified v client =>
    Then (LookedUp n v client) [.flagRead n false, .tableRead n client true] es
  | _ => True

theorem Visited.later (h : Visited es n t) : Visited (es ++ fs) n t := by
  cases t with
  | allowed a p => exact h
  | found | opened | taken | granted | identified => exact Then.later h
  | idle | done | reserving | redeeming | presenting => trivial

/-- Where the entries of the tables come from. -/
structure Tables (C : Crypto) (es : List Event) (i : Inner) : Prop where
  launches : ∀ k g, i.launches.lookup k = some g → ∃ ticket, k = C.key ticket ∧
    Issued es ticket g.preview g.client g.untilTime
  browsers : ∀ k b, i.browsers.lookup k = some b → ∃ credential, k = C.key credential ∧
    Since (Event.Spares b.preview b.client) (Admitted b.preview b.client credential b.untilTime) es

/-- The ticket of a call that holds the mutex was this gateway's and not expired. -/
structure Redeemed (es : List Event) (c : Consuming) : Prop where
  preview : c.grant.preview = c.gateway.info.id
  issued : Issued es c.ticket c.grant.preview c.grant.client c.grant.untilTime
  alive : c.redeemed < c.grant.untilTime

structure Traced (C : Crypto) (es : List Event) (w : World) : Prop where
  tables : Tables C es w.previews
  consuming : ∀ c, w.consuming = some c → Redeemed es c
  tasks : ∀ n, Visited es n (w.tasks n)

theorem Issued.later (h : Issued es ticket preview client expiry) :
    Issued (es ++ fs) ticket preview client expiry := by
  obtain ⟨now, p, hm, hrest⟩ := h
  exact ⟨now, p, List.mem_append_left _ hm, hrest⟩

theorem Redeemed.later (h : Redeemed es c) : Redeemed (es ++ fs) c :=
  ⟨h.preview, h.issued.later, h.alive⟩

/-- The tables only lose entries, and lose those that the events take back. -/
structure Sheds (fs : List Event) (i i' : Inner) : Prop where
  launches : ∀ k g, i'.launches.lookup k = some g → i.launches.lookup k = some g
  browsers : ∀ k b, i'.browsers.lookup k = some b → i.browsers.lookup k = some b ∧
    ∀ e ∈ fs, e.Spares b.preview b.client

theorem Tables.sheds (h : Tables C es i) (hs : Sheds fs i i') : Tables C (es ++ fs) i' where
  launches := by
    intro k g hg
    obtain ⟨ticket, hk, hi⟩ := h.launches k g (hs.launches k g hg)
    exact ⟨ticket, hk, hi.later⟩
  browsers := by
    intro k b hb
    obtain ⟨hold, hspare⟩ := hs.browsers k b hb
    obtain ⟨credential, hk, ha⟩ := h.browsers k b hold
    exact ⟨credential, hk, ha.append hspare⟩

/-- Events that take nothing back. -/
def Harmless (fs : List Event) : Prop := ∀ e ∈ fs, ∀ preview client, e.Spares preview client

theorem Sheds.refl (i : Inner) (h : Harmless fs) : Sheds fs i i where
  launches := fun _ _ hg => hg
  browsers := fun _ b hb => ⟨hb, fun e he => h e he b.preview b.client⟩

theorem prune_sheds (i : Inner) (now : Nat) (h : Harmless fs) : Sheds fs i (i.prune now) where
  launches := fun _ _ hg => (Table.lookup_of_retain hg).1
  browsers := fun _ b hb => ⟨(Table.lookup_of_retain hb).1, fun e he => h e he b.preview b.client⟩

theorem prune_launches {i : Inner} (hg : (i.prune now).launches.lookup k = some g) :
    i.launches.lookup k = some g :=
  (Table.lookup_of_retain hg).1

theorem harmless_nil : Harmless [] := fun _ he => (List.not_mem_nil he).elim

theorem register_sheds (h : Inner.register i e = (r, i')) : Sheds [] i i' := by
  unfold Inner.register at h
  split at h
  · cases h
    exact .refl i harmless_nil
  · cases h
    exact ⟨fun _ _ hg => hg, (Sheds.refl i harmless_nil).browsers⟩

/-- An event takes back what is not retained. -/
theorem retain_sheds {i i' : Inner} (kept : Uuid → Uuid → Bool)
    (hl : i'.launches = Table.retain (fun _ g => kept g.preview g.client) i.launches)
    (hb : i'.browsers = Table.retain (fun _ g => kept g.preview g.client) i.browsers)
    (hk : ∀ preview client, kept preview client = true → e.Spares preview client) :
    Sheds [e] i i' where
  launches := by
    intro k g hg
    rw [hl] at hg
    exact (Table.lookup_of_retain hg).1
  browsers := by
    intro k b hg
    rw [hb] at hg
    obtain ⟨hold, hp⟩ := Table.lookup_of_retain hg
    refine ⟨hold, fun e he => ?_⟩
    rw [List.mem_singleton.1 he]
    exact hk _ _ hp

theorem remove_sheds (i : Inner) (id : Uuid) : Sheds [.removed id] i (i.remove id) := by
  apply retain_sheds (fun preview _ => decide (preview ≠ id)) rfl rfl
  exact fun _ _ hne => Ne.symm (of_decide_eq_true hne)

theorem revokeClient_sheds (i : Inner) (id : Uuid) :
    Sheds [.clientRevoked id] i (i.revokeClient id) := by
  apply retain_sheds (fun _ client => decide (client ≠ id)) rfl rfl
  exact fun _ _ hne => Ne.symm (of_decide_eq_true hne)

theorem empty_sheds (h₁ : i'.launches = ∅) (h₂ : i'.browsers = ∅) : Sheds fs i i' where
  launches := by
    intro k g hg
    rw [h₁, AList.lookup_empty] at hg
    cases hg
  browsers := by
    intro k b hb
    rw [h₂, AList.lookup_empty] at hb
    cases hb

/-- Taking a ticket out gives the grant of this preview, if it has not expired. -/
theorem redeem_spec {ticket : String} {id : Uuid}
    (h : Inner.redeem C i id now ticket = (r, i')) :
    Sheds [] i i' ∧ i'.launches.lookup (C.key ticket) = none ∧
      ∀ g, r = .ok g → g.preview = id ∧ now < g.untilTime ∧
        i.launches.lookup (C.key ticket) = some g := by
  have hp : Sheds [] i (i.prune now) := prune_sheds i now harmless_nil
  have hs : Sheds [] i
      { i.prune now with launches := (i.prune now).launches.erase (C.key ticket) } := by
    refine ⟨?_, hp.browsers⟩
    intro k g hg
    rw [Table.lookup_erase] at hg
    split at hg
    · cases hg
    · exact hp.launches k g hg
  have hnone : ((i.prune now).launches.erase (C.key ticket)).lookup (C.key ticket) = none := by
    rw [Table.lookup_erase, if_pos rfl]
  unfold Inner.redeem at h
  simp only at h
  split at h
  · cases h
    exact ⟨hs, hnone, fun g hg => by cases hg⟩
  · next g hg =>
    cases h
    refine ⟨hs, hnone, ?_⟩
    intro g' hg'
    cases hg'
    rw [Option.filter_eq_some_iff] at hg
    obtain ⟨hl, hlt⟩ := Table.lookup_of_retain hg.1
    exact ⟨of_decide_eq_true hg.2, of_decide_eq_true hlt, hl⟩

/-- A credential that is looked up is this preview's and not expired. -/
theorem authorized_spec {credential : String} {id : Uuid}
    (h : Inner.authorized C i id now credential = (r, i')) :
    i' = i.prune now ∧ ∀ client, r = .ok client →
      ∃ b, i.browsers.lookup (C.key credential) = some b ∧ b.preview = id ∧ b.client = client ∧
        now < b.untilTime := by
  unfold Inner.authorized at h
  simp only at h
  split at h
  · cases h
    exact ⟨rfl, fun client hc => by cases hc⟩
  · next b hb =>
    cases h
    refine ⟨rfl, ?_⟩
    intro client hc
    cases hc
    rw [Option.filter_eq_some_iff] at hb
    obtain ⟨hl, hlt⟩ := Table.lookup_of_retain hb.1
    exact ⟨b, hl, of_decide_eq_true hb.2, rfl, of_decide_eq_true hlt⟩

/-- Either the tables only lose entries, or one ticket is added. -/
theorem launch_spec {ticket : String} {id : Uuid}
    (h : Inner.launch C i id p now ticket = (r, i')) :
    (∃ e, r = .error e) ∧ Sheds [] i i' ∨
      (∃ url, r = .ok url) ∧ i'.browsers = (i.prune now).browsers ∧
        i'.launches = (i.prune now).launches.insert (C.key ticket)
          ⟨id, p.clientId, now + fromSecs 30⟩ := by
  have hp : Sheds [] i (i.prune now) := prune_sheds i now harmless_nil
  unfold Inner.launch at h
  simp only at h
  split at h
  · cases h
    exact .inl ⟨⟨_, rfl⟩, hp⟩
  · split at h
    · cases h
      exact .inl ⟨⟨_, rfl⟩, hp⟩
    · cases h
      exact .inr ⟨⟨_, rfl⟩, rfl, rfl⟩

theorem admit_spec {g : LaunchGrant} {credential : String}
    (h : Inner.enter C i g now credential = (r, i')) :
    (∃ e, r = .error e) ∧ i' = i ∨
      r = .ok () ∧ i'.launches = i.launches ∧
        i'.browsers = i.browsers.insert (C.key credential)
          ⟨g.preview, g.client, now + fromSecs 600⟩ := by
  unfold Inner.enter at h
  split at h
  · cases h
    exact .inl ⟨⟨_, rfl⟩, rfl⟩
  · cases h
    exact .inr ⟨rfl, rfl, rfl⟩

/-- A step keeps what is known of everything it does not touch. -/
theorem Traced.keep (h : Traced C es w) (ht : Tables C (es ++ fs) w'.previews)
    (hc : ∀ c, w'.consuming = some c → w.consuming = some c ∨ Redeemed (es ++ fs) c)
    (hk : ∀ n, w'.tasks n = w.tasks n ∨ Visited (es ++ fs) n (w'.tasks n)) :
    Traced C (es ++ fs) w' where
  tables := ht
  consuming := by
    intro c hcon
    rcases hc c hcon with hold | hnew
    · exact (h.consuming c hold).later
    · exact hnew
  tasks := by
    intro n
    rcases hk n with hold | hnew
    · rw [hold]
      exact (h.tasks n).later
    · exact hnew

theorem setTask_visited (w : World) (hv : Visited es n t) (m : Nat) :
    (w.setTask n t).tasks m = w.tasks m ∨ Visited es m ((w.setTask n t).tasks m) := by
  by_cases hm : m = n
  · subst hm
    right
    simp only [World.setTask, Function.update_self]
    exact hv
  · left
    simp only [World.setTask, Function.update_of_ne hm]

theorem Visited.next {f : α → Task} (h : ∀ a, r = .ok a → Visited es n (f a)) :
    Visited es n (.next r f) := by
  cases r with
  | error e => trivial
  | ok a => exact h a rfl

theorem toOption_eq_some {r : Except ErrorCode α} (h : r.toOption = some a) : r = .ok a := by
  cases r with
  | error e => cases h
  | ok b => cases h; rfl

theorem principal_scope (h : principal C auth bearer now scope = .ok p) : scope ∈ p.scopes := by
  unfold principal at h
  cases ha : auth.authorize C bearer now with
  | error e => rw [ha] at h; cases h
  | ok q =>
    rw [ha] at h
    cases hr : q.require auth.cancelled now scope with
    | error e => simp only [bind, Except.bind, hr] at h; cases h
    | ok u =>
      simp only [bind, Except.bind, hr, pure, Except.pure, Except.ok.injEq] at h
      rw [← h]
      exact ((q.require_eq_ok _ _ _).1 hr).2.2

theorem tablePrincipal_active {auth : Auth} (h : auth.tablePrincipal client now = .ok p) :
    (auth.devices.lookup client).any (fun d => !d.device.revoked) = true := by
  unfold Auth.tablePrincipal at h
  split at h
  · cases h
  · next d hd =>
    obtain ⟨hl, hr⟩ := Auth.activeDevice_eq_some hd
    rw [hl, Option.any_some, hr]
    rfl

theorem harmless_one {e : Event} (h : ∀ preview client, e.Spares preview client) :
    Harmless [e] := by
  intro x hx
  rw [List.mem_singleton.1 hx]
  exact h

theorem harmless_onOk {r : Except ErrorCode α} {es : α → List Event}
    (h : ∀ a, Harmless (es a)) : Harmless (onOk r es) := by
  cases r with
  | error e => exact harmless_nil
  | ok a => exact h a

/-- A launch adds a ticket that its event accounts for. -/
theorem Tables.launch {ticket : String} {id : Uuid} (h : Tables C es i)
    (hp : Scope.previewRead ∈ p.scopes) (hr : i.launch C id p now ticket = (r, i')) :
    Tables C (es ++ onOk r fun _ => [.launched now ticket id p]) i' := by
  have hharm : Harmless (onOk r fun _ => [.launched now ticket id p]) :=
    harmless_onOk fun _ => harmless_one fun _ _ => trivial
  rcases launch_spec hr with ⟨⟨e, rfl⟩, hs⟩ | ⟨⟨url, rfl⟩, hb, hl⟩
  · exact h.sheds hs
  · have hpruned := h.sheds (prune_sheds i now hharm)
    constructor
    · intro k g hg
      rw [hl, Table.lookup_insert] at hg
      split at hg
      · next hk =>
        cases hg
        exact ⟨ticket, hk, now, p, List.mem_append_right _ (.head _), rfl, hp, rfl⟩
      · exact hpruned.launches k g hg
    · rw [hb]
      exact hpruned.browsers

/-- Consuming a ticket adds a credential that its event accounts for. -/
theorem Tables.enter {credential : String} (h : Tables C es i) (hc : Redeemed es c)
    (hr : i.enter C c.grant now credential = (r, i')) :
    Tables C (es ++ onOk r fun _ => [.admitted c.redeemed now c.ticket c.gateway.info.id
      c.grant.client credential]) i' := by
  rcases admit_spec hr with ⟨⟨e, rfl⟩, rfl⟩ | ⟨rfl, hl, hb⟩
  · exact h.sheds (.refl _ harmless_nil)
  · have hkept := h.sheds (.refl i (harmless_onOk (r := .ok ()) fun _ => harmless_one
      (e := .admitted c.redeemed now c.ticket c.gateway.info.id c.grant.client credential)
      fun _ _ => trivial))
    constructor
    · rw [hl]
      exact hkept.launches
    · intro k b hb'
      rw [hb, Table.lookup_insert] at hb'
      split at hb'
      · next hk =>
        cases hb'
        refine ⟨credential, hk, Since.now ⟨c.redeemed, now, c.ticket, ?_, rfl, _, hc.issued,
          hc.alive⟩⟩
        rw [hc.preview]
      · exact hkept.browsers k b hb'

theorem Traced.step (h : Traced C es w) (hkey : Function.Injective C.key)
    (hs : Step C authority bindPort w fs w') : Traced C (es ++ fs) w' := by
  have hsame {gs : List Event} (hh : Harmless gs) : Tables C (es ++ gs) w.previews :=
    h.tables.sheds (.refl _ hh)
  have hnone {gs : List Event} {v : Option Consuming} (hm : v = none) :
      ∀ c, v = some c → w.consuming = some c ∨ Redeemed (es ++ gs) c := by
    intro c hc
    rw [hm] at hc
    cases hc
  cases hs with
  | tick d | auth op | flag b =>
    exact h.keep (hsame harmless_nil) (fun c hc => .inl hc) fun n => .inl rfl
  | allow n a bearer hi =>
    refine h.keep (hsame harmless_nil) (fun c hc => .inl hc) (setTask_visited w ?_)
    exact .next fun p hp => principal_scope hp
  | register n body p id origin pid created e r i ht hb hm he hr =>
    refine h.keep (h.tables.sheds (register_sheds hr)) (fun c hc => .inl hc)
      (setTask_visited _ (.next fun _ _ => ?_))
    trivial
  | reserved n e ht =>
    exact h.keep (hsame harmless_nil) (fun c hc => .inl hc) (setTask_visited _ trivial)
  | unreserved n e ht hm =>
    refine h.keep (h.tables.sheds ⟨fun _ _ hg => hg, ?_⟩) (fun c hc => .inl hc)
      (setTask_visited _ trivial)
    exact (Sheds.refl w.previews harmless_nil).browsers
  | remove n id p ht hm =>
    exact h.keep (h.tables.sheds (remove_sheds w.previews id)) (fun c hc => .inl hc)
      (setTask_visited _ trivial)
  | launch n id p ticket r i ht hm hr =>
    have hscope : Scope.previewRead ∈ p.scopes := by
      have hv := h.tasks n
      rw [ht] at hv
      exact hv
    exact h.keep (h.tables.launch hscope hr) (fun c hc => .inl hc) (setTask_visited _ trivial)
  | revokeClient id hm =>
    exact h.keep (h.tables.sheds (revokeClient_sheds w.previews id)) (fun c hc => .inl hc)
      fun n => .inl rfl
  | blockAll hm =>
    exact h.keep (h.tables.sheds (empty_sheds rfl rfl)) (fun c hc => .inl hc) fun n => .inl rfl
  | shutdown hm =>
    exact h.keep (h.tables.sheds (empty_sheds rfl rfl)) (fun c hc => .inl hc) fun n => .inl rfl
  | receive n g r hi hg hst =>
    refine h.keep (hsame harmless_nil) (fun c hc => .inl hc)
      (setTask_visited _ (.next fun a _ => ?_))
    cases a <;> trivial
  | redeem n g ticket r i ht hm hr =>
    obtain ⟨hsheds, _, hok⟩ := redeem_spec hr
    refine h.keep (h.tables.sheds hsheds) ?_ (setTask_visited _ trivial)
    intro c hc
    right
    obtain ⟨grant, hg, rfl⟩ := Option.map_eq_some_iff.1 hc
    obtain ⟨hpre, hlt, hl⟩ := hok grant (toOption_eq_some hg)
    obtain ⟨ticket', hk, hissued⟩ := h.tables.launches _ grant hl
    rw [hkey hk]
    exact ⟨hpre, hissued.later, hlt⟩
  | consumeOpen c hc hst =>
    refine h.keep (hsame harmless_nil) ?_ fun n => .inl rfl
    intro c' hc'
    right
    obtain ⟨_, _, rfl⟩ := Option.map_eq_some_iff.1 hc'
    exact ⟨(h.consuming c hc).preview, (h.consuming c hc).issued.later, (h.consuming c hc).alive⟩
  | consumeTable c hc hst =>
    refine h.keep (hsame harmless_nil) ?_ fun n => .inl rfl
    intro c' hc'
    right
    obtain ⟨_, _, rfl⟩ := Option.map_eq_some_iff.1 hc'
    exact ⟨(h.consuming c hc).preview, (h.consuming c hc).issued.later, (h.consuming c hc).alive⟩
  | consumeRefused c p e hc hst hr =>
    exact h.keep (hsame harmless_nil) (hnone rfl) fun n => .inl rfl
  | consumeEnd c p credential r i hc hst hp hr =>
    exact h.keep (h.tables.enter (h.consuming c hc) hr) (hnone rfl) fun n => .inl rfl
  | lookup n v r i ht hm hr =>
    obtain ⟨rfl, hok⟩ := authorized_spec hr
    refine h.keep (h.tables.sheds (prune_sheds _ _ ?_)) (fun c hc => .inl hc)
      (setTask_visited _ (.next ?_))
    · exact harmless_onOk fun _ => harmless_one fun _ _ => trivial
    · intro client hclient
      obtain ⟨b, hl, hpre, rfl, hlt⟩ := hok client hclient
      obtain ⟨credential, hk, hsince⟩ := h.tables.browsers _ b hl
      rw [hclient]
      refine Then.now ⟨w.now, rfl, b.untilTime, ?_, hlt⟩
      rw [hkey hk, ← hpre]
      exact hsince
  | ensureOpen n v client ht =>
    refine h.keep (hsame (harmless_one fun _ _ => trivial)) (fun c hc => .inl hc)
      (setTask_visited _ (.next ?_))
    intro _ hopen
    have hv := h.tasks n
    rw [ht] at hv
    have hflag : w.auth.blocked = false := by
      cases hb : w.auth.blocked with
      | false => rfl
      | true => simp only [Auth.ensureOpen, hb, ↓reduceIte, reduceCtorEq] at hopen
    rw [hflag]
    exact Then.append hv
  | table n v client ht =>
    refine h.keep (hsame (harmless_one fun _ _ => trivial)) (fun c hc => .inl hc)
      (setTask_visited _ (.next ?_))
    intro p hp
    have hv := h.tasks n
    rw [ht] at hv
    rw [tablePrincipal_active hp]
    exact Then.append hv
  | require n v client p ht =>
    refine h.keep (hsame harmless_nil) (fun c hc => .inl hc) (setTask_visited _ (.next ?_))
    intro _ _
    have hv := h.tasks n
    rw [ht] at hv
    exact Then.later hv
  | identified n v client ht =>
    refine h.keep (hsame harmless_nil) (fun c hc => .inl hc) (setTask_visited _ ?_)
    have hv := h.tasks n
    rw [ht] at hv
    exact Then.later hv
  | changed n v client identity ht hd =>
    exact h.keep (hsame harmless_nil) (fun c hc => .inl hc) (setTask_visited _ trivial)
  | forward n v client ht =>
    exact h.keep (hsame (harmless_one fun _ _ => trivial)) (fun c hc => .inl hc)
      (setTask_visited _ trivial)
  | drop n =>
    exact h.keep (hsame harmless_nil) (fun c hc => .inl hc) (setTask_visited _ trivial)

/-- The ticket an event issues. -/
def Event.issued : Event → List String
  | .launched _ ticket _ _ => [ticket]
  | _ => []

/-- The ticket an event makes a credential of. -/
def Event.spent : Event → List String
  | .admitted _ _ ticket _ _ _ => [ticket]
  | _ => []

/-- The ticket can still become a credential. -/
def Held (C : Crypto) (w : World) (ticket : String) : Prop :=
  (∃ g, w.previews.launches.lookup (C.key ticket) = some g) ∨
    ∃ c, w.consuming = some c ∧ c.ticket = ticket

/-- The ticket of the call that holds the mutex is out of the table. -/
def TakenOut (C : Crypto) (w : World) : Prop :=
  ∀ c, w.consuming = some c → w.previews.launches.lookup (C.key c.ticket) = none

/-- What a step does to the tickets. -/
def Turns (C : Crypto) (w : World) (fs : List Event) (w' : World) : Prop :=
  Ledger.Turn (Held C w) (Held C w') (fs.flatMap Event.issued) (fs.flatMap Event.spent) ∧
    TakenOut C w'

/-- A step that neither issues nor spends a ticket. -/
theorem turns_quiet (ht : TakenOut C w)
    (hl : ∀ k g, w'.previews.launches.lookup k = some g → w.previews.launches.lookup k = some g)
    (hc : ∀ c, w'.consuming = some c → ∃ c', w.consuming = some c' ∧ c'.ticket = c.ticket)
    (hs : fs.flatMap Event.spent = []) : Turns C w fs w' := by
  refine ⟨⟨?_, ?_, ?_⟩, ?_⟩
  · intro ticket hheld
    rcases hheld with ⟨g, hg⟩ | ⟨c, hcon, rfl⟩
    · exact .inl (.inl ⟨g, hl _ g hg⟩)
    · exact .inl (.inr (hc c hcon))
  · rw [hs]
    exact fun _ h => (List.not_mem_nil h).elim
  · rw [hs]
    exact List.nodup_nil
  · intro c hcon
    obtain ⟨c', hold, hticket⟩ := hc c hcon
    cases hg : w'.previews.launches.lookup (C.key c.ticket) with
    | none => rfl
    | some g =>
      have hnone := ht c' hold
      rw [hticket, hl _ g hg] at hnone
      cases hnone

/-- A launch issues its ticket. -/
theorem launch_turns {ticket : String} {id : Uuid} (hkey : Function.Injective C.key)
    (hm : w.consuming = none) (hr : w.previews.launch C id p w.now ticket = (r, i)) :
    Turns C w (onOk r fun _ => [.launched w.now ticket id p]) { w with previews := i } := by
  have htaken : TakenOut C { w with previews := i } := by
    intro c hc
    rw [show w.consuming = some c from hc] at hm
    cases hm
  rcases launch_spec hr with ⟨⟨e, rfl⟩, hs⟩ | ⟨⟨url, rfl⟩, _, hl⟩
  · refine turns_quiet ?_ hs.launches (fun c hc => ⟨c, hc, rfl⟩) rfl
    intro c hc
    rw [hm] at hc
    cases hc
  · refine ⟨⟨?_, fun _ h => (List.not_mem_nil h).elim, List.nodup_nil⟩, htaken⟩
    intro ticket' hheld
    rcases hheld with ⟨g, hg⟩ | hc
    · rw [hl, Table.lookup_insert] at hg
      split at hg
      · next hk =>
        rw [hkey hk]
        exact .inr (.head _)
      · exact .inl (.inl ⟨g, prune_launches hg⟩)
    · exact .inl (.inr hc)

/-- Taking a ticket out hands it to the call that holds the mutex. -/
theorem redeem_turns {ticket : String} {gateway : Entry}
    (hr : w.previews.redeem C gateway.info.id w.now ticket = (r, i)) :
    Turns C w [] { w with
      previews := i
      consuming := r.toOption.map fun grant => ⟨gateway, ticket, grant, w.now, .locked⟩ } := by
  obtain ⟨hs, hnone, hok⟩ := redeem_spec hr
  refine ⟨⟨?_, fun _ h => (List.not_mem_nil h).elim, List.nodup_nil⟩, ?_⟩
  · intro ticket' hheld
    left
    rcases hheld with ⟨g, hg⟩ | ⟨c, hc, rfl⟩
    · exact .inl ⟨g, hs.launches _ g hg⟩
    · obtain ⟨grant, hg, rfl⟩ := Option.map_eq_some_iff.1 hc
      exact .inl ⟨grant, (hok grant (toOption_eq_some hg)).2.2⟩
  · intro c hc
    obtain ⟨grant, _, rfl⟩ := Option.map_eq_some_iff.1 hc
    exact hnone

/-- A credential is made of the ticket that is taken out. -/
theorem admit_turns {credential : String} (ht : TakenOut C w) (hc : w.consuming = some c)
    (hr : w.previews.enter C c.grant w.now credential = (r, i)) :
    Turns C w (onOk r fun _ =>
      [.admitted c.redeemed w.now c.ticket c.gateway.info.id c.grant.client credential])
      { w with previews := i, consuming := none } := by
  rcases admit_spec hr with ⟨⟨e, rfl⟩, rfl⟩ | ⟨rfl, hl, _⟩
  · exact turns_quiet ht (fun _ _ h => h) (fun c hc => by cases hc) rfl
  · refine ⟨⟨?_, ?_, List.nodup_singleton c.ticket⟩, fun c hc => by cases hc⟩
    · intro ticket hheld
      left
      rcases hheld with ⟨g, hg⟩ | ⟨c', hc', _⟩
      · exact .inl ⟨g, hl ▸ hg⟩
      · cases hc'
    · intro ticket hmem
      rw [List.mem_singleton.1 hmem]
      refine ⟨.inr ⟨c, hc, rfl⟩, ?_⟩
      rintro (⟨g, hg⟩ | ⟨c', hc', _⟩)
      · rw [hl, ht c hc] at hg
        cases hg
      · cases hc'

theorem Step.turns (hkey : Function.Injective C.key) (ht : TakenOut C w)
    (hs : Step C authority bindPort w fs w') : Turns C w fs w' := by
  have hself : ∀ c, w.consuming = some c → ∃ c', w.consuming = some c' ∧ c'.ticket = c.ticket :=
    fun c hc => ⟨c, hc, rfl⟩
  cases hs with
  | tick | auth | flag | allow | reserved | receive | ensureOpen | table | require | identified
  | changed | forward | drop | unreserved =>
    exact turns_quiet ht (fun _ _ h => h) hself rfl
  | register n body p id origin pid created e r i htask hb hm he hr =>
    exact turns_quiet ht (register_sheds hr).launches hself rfl
  | remove n id p htask hm =>
    exact turns_quiet ht (remove_sheds w.previews id).launches hself rfl
  | launch n id p ticket r i htask hm hr => exact launch_turns hkey hm hr
  | revokeClient id hm =>
    exact turns_quiet ht (revokeClient_sheds w.previews id).launches hself rfl
  | blockAll hm | shutdown hm =>
    have hempty : Sheds [] w.previews { w.previews with launches := ∅, browsers := ∅ } :=
      empty_sheds rfl rfl
    exact turns_quiet ht hempty.launches hself rfl
  | redeem n g ticket r i htask hm hr => exact redeem_turns hr
  | consumeOpen c hc hst | consumeTable c hc hst =>
    refine turns_quiet ht (fun _ _ h => h) ?_ rfl
    intro c' hc'
    obtain ⟨_, _, rfl⟩ := Option.map_eq_some_iff.1 hc'
    exact ⟨c, hc, rfl⟩
  | consumeRefused c p e hc hst hr =>
    exact turns_quiet ht (fun _ _ h => h) (fun c hc => by cases hc) rfl
  | consumeEnd c p credential r i hc hst hp hr => exact admit_turns ht hc hr
  | lookup n v r i htask hm hr =>
    obtain ⟨rfl, _⟩ := authorized_spec hr
    refine turns_quiet ht (fun _ _ => prune_launches) hself ?_
    cases r <;> rfl

/-- No ticket is issued twice. -/
def Fresh (es : List Event) : Prop := (es.flatMap Event.issued).Nodup

structure Accounted (C : Crypto) (es : List Event) (w : World) : Prop where
  taken : TakenOut C w
  ledger : Fresh es → Ledger (Held C w) (es.flatMap Event.issued) (es.flatMap Event.spent)

theorem Accounted.step (h : Accounted C es w) (hkey : Function.Injective C.key)
    (hs : Step C authority bindPort w fs w') : Accounted C (es ++ fs) w' := by
  obtain ⟨hturn, htaken⟩ := hs.turns hkey h.taken
  refine ⟨htaken, ?_⟩
  intro hf
  unfold Fresh at hf
  rw [List.flatMap_append] at hf ⊢
  rw [List.flatMap_append]
  exact (h.ledger hf.of_append_left).turn hturn hf

theorem Traced.start (C : Crypto) (auth : Auth) (now : Nat) : Traced C [] (.start auth now) where
  tables := by
    constructor
    · intro k g hg
      cases hg
    · intro k b hb
      cases hb
  consuming := by
    intro c hc
    cases hc
  tasks := fun n => trivial

theorem Accounted.start (C : Crypto) (auth : Auth) (now : Nat) :
    Accounted C [] (.start auth now) where
  taken := by
    intro c hc
    cases hc
  ledger := by
    intro _
    apply Ledger.empty
    rintro ticket (⟨g, hg⟩ | ⟨c, hc, _⟩)
    · cases hg
    · cases hc

/-- Only a request that came all the way is forwarded. -/
theorem forwarded_task {preview : Uuid} {credential suffix : String}
    (hs : Step C authority bindPort w [.forwarded n preview credential suffix] w') :
    ∃ v client, w.tasks n = .identified v client ∧ v.gateway.info.id = preview ∧
      v.credential = credential := by
  generalize he : [Event.forwarded n preview credential suffix] = fs at hs
  cases hs with
  | forward m v client ht =>
    cases he
    exact ⟨v, client, ht, rfl, rfl⟩
  | launch _ _ _ _ r | consumeEnd _ _ _ r | lookup _ _ r => cases r <;> cases he
  | _ => cases he

/-- A request is forwarded to a preview only for a credential that was made at its gateway, of a
ticket issued for it that makes one credential, and that had neither expired nor been taken back
when it was looked up; after that the host was found open and the device not revoked. -/
theorem preview_authorized {auth : Auth} (hkey : Function.Injective C.key)
    (hrun : Run (Step C authority bindPort) (.start auth start) es w) (hfresh : Fresh es) :
    (es.flatMap Event.spent).Nodup ∧
      ∀ n preview credential suffix w',
        Step C authority bindPort w [.forwarded n preview credential suffix] w' →
        ∃ client, Then (fun before e => ∃ now, e = .lookedUp n now preview client credential ∧
          Entitled preview client credential now before)
          [.flagRead n false, .tableRead n client true] es := by
  obtain ⟨htraced, haccount⟩ : Traced C es w ∧ Accounted C es w := by
    refine hrun.invariant (I := fun es w => Traced C es w ∧ Accounted C es w)
      ⟨.start C auth start, .start C auth start⟩ ?_
    intro es t fs u h hs
    exact ⟨h.1.step hkey hs, h.2.step hkey hs⟩
  refine ⟨(haccount.ledger hfresh).spent_once, ?_⟩
  intro n preview credential suffix w' hs
  obtain ⟨v, client, ht, rfl, rfl⟩ := forwarded_task hs
  have hv := htraced.tasks n
  rw [ht] at hv
  exact ⟨client, hv⟩

/-- An owner with a token for the management interface. -/
def ownerAuth : Auth :=
  { Auth.new ⟨.singleton (.fill 1) ⟨.fill 1, [4], "home", [.previewRead, .adminSettings], false⟩,
      false⟩ "host" 0 with
    access := .singleton (Auth.textCrypto.key "a") ⟨.fill 1, fromSecs 600⟩ }

def devServer : Register := ⟨.fill 9, 5173, 8444⟩

def devGateway : Entry := devServer.entry (.fill 7) "https://host:8444" 100 200 0 (.fill 1)

def consumeRequest : Request where
  method := .post
  path := "/_rc/consume"
  suffix := "/_rc/consume"
  host := some "host:8444"
  origin := some (some "https://host:8444")
  cookie := none
  body := some (some "t")

def pageRequest : Request where
  method := .get
  path := "/"
  suffix := "/"
  host := some "host:8444"
  origin := none
  cookie := some (cookieName (.fill 7) ++ "=c")
  body := none

abbrev DevStep := Step Auth.textCrypto (fun _ => some "host:8444") 13843

def owner : Principal := ⟨.fill 1, [.previewRead, .adminSettings], fromSecs 600, 0⟩

/-- The agent after the owner has registered the preview. -/
def devWorld (tasks : Nat → Task) : World :=
  ⟨ownerAuth, 0, ⟨.singleton (.fill 7) devGateway, ∅, ∅⟩, none, [devGateway], ∅, 1, tasks⟩

/-- The owner registers a preview, launches it, consumes the ticket and asks for a page. -/
theorem preview_authorized_page :
    ∃ es client, es.flatMap Event.spent = ["t"] ∧
      Then (fun before e => ∃ now, e = .lookedUp 3 now (.fill 7) client "c" ∧
        Entitled (.fill 7) client "c" now before)
        [.flagRead 3 false, .tableRead 3 client true] es := by
  let visit : Visit := ⟨devGateway, "/", "c"⟩
  have h₁ : Run DevStep (.start ownerAuth 0) []
      ((World.start ownerAuth 0).setTask 0 (.allowed (.register devServer) owner)) :=
    Run.single (.allow _ 0 (.register devServer) "a" rfl)
  have h₂ := h₁.snoc (.register _ 0 devServer owner (.fill 7) "https://host:8444" 100 200
    devGateway (.ok ()) ⟨.singleton (.fill 7) devGateway, ∅, ∅⟩ rfl rfl rfl rfl rfl)
  have h₃ : Run DevStep (.start ownerAuth 0) [] (devWorld _) :=
    h₂.snoc (.reserved _ 0 devGateway rfl)
  have h₄ : Run DevStep (.start ownerAuth 0) []
      ((devWorld _).setTask 1 (.allowed (.launch (.fill 7)) owner)) :=
    h₃.snoc (.allow _ 1 (.launch (.fill 7)) "a" rfl)
  have h₅ := h₄.snoc (.launch _ 1 (.fill 7) owner "t" (.ok _) _ rfl rfl rfl)
  have h₆ := h₅.snoc (.receive _ 2 devGateway consumeRequest rfl (.head _) (by decide))
  have h₇ := h₆.snoc (.redeem _ 2 devGateway "t" (.ok _) _ rfl rfl rfl)
  have h₈ := h₇.snoc (.consumeOpen _ _ rfl rfl)
  have h₉ := h₈.snoc (.consumeTable _ _ rfl rfl)
  have h₁₀ := h₉.snoc (.consumeEnd _ _ _ "c" (.ok ()) _ rfl rfl (by decide) rfl)
  have h₁₁ := h₁₀.snoc (.receive _ 3 devGateway pageRequest rfl (.head _) (by decide))
  have h₁₂ := h₁₁.snoc (.lookup _ 3 visit (.ok (.fill 1)) _ rfl rfl rfl)
  have h₁₃ := h₁₂.snoc (.ensureOpen _ 3 visit (.fill 1) rfl)
  have h₁₄ := h₁₃.snoc (.table _ 3 visit (.fill 1) rfl)
  have h₁₅ := h₁₄.snoc (.require _ 3 visit (.fill 1) _ rfl)
  have h₁₆ := h₁₅.snoc (.identified _ 3 visit (.fill 1) rfl)
  obtain ⟨_, hforward⟩ := preview_authorized Auth.textCrypto_injective h₁₆
    (List.nodup_singleton "t")
  obtain ⟨client, hthen⟩ := hforward 3 (.fill 7) "c" "/" _ (.forward _ 3 visit (.fill 1) rfl)
  exact ⟨_, client, rfl, hthen⟩

end Preview
end RemoteCodex
