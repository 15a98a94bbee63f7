import RemoteCodex.Lib.Trace
import RemoteCodex.Client.Inputs

namespace RemoteCodex
set_option autoImplicit true
open Trace Fallible
namespace Client

def Sent.session : Sent → Js.Str
  | .input m => m.sessionId
  | .paste r => r.sessionId

def Sent.CtrlC : Sent → Prop
  | .input m => m.payload = .utf8 CTRL_C
  | .paste _ => False

/-- What a call can do: nothing but count inputs, send an input, or begin a paste. -/
inductive Did (k : Keyboard) : Keyboard → Prop where
  | nothing (inputs : InputSequencer) : Did k { k with inputs }
  | input (inputs : InputSequencer) (m : InputMessage)
      (h : m.sessionId ∈ k.pastes → m.payload = .utf8 CTRL_C) :
      Did k { k with inputs, sent := k.sent ++ [.input m] }
  | paste (inputs : InputSequencer) (r : PasteRequest) (h : r.sessionId ∉ k.pastes)
      (hc : r.connectionId = k.page.c.connectionId) :
      Did k (Keyboard.launch { k with inputs, pastes := r.sessionId :: k.pastes } r)

section Calls
variable {k : Keyboard}

/-- Only inputs were counted. -/
def Quiet (k : Keyboard) (k' : Keyboard) : Prop := ∃ inputs, k' = { k with inputs }

theorem Quiet.refl (k : Keyboard) : Quiet k k := ⟨k.inputs, rfl⟩

theorem Quiet.did (h : Quiet k k') : Did k k' := by
  obtain ⟨inputs, rfl⟩ := h
  exact .nothing inputs

abbrev Stills (k : Keyboard) (p : Handler α) : Prop :=
  Triple (Quiet k) p (fun _ => Quiet k) (Quiet k)

theorem bail_stills (c : Prop) [Decidable c] (code : String) : Stills k (bailIf c code) :=
  .bailIf (fun _ _ h => h) fun _ _ h => h

theorem ofExcept_stills (x : Except String α) : Stills k (ofExcept x : Handler α) :=
  .ofExcept (fun _ _ _ h => h) fun _ h => h

theorem findSession_spec (id : Js.Str) :
    Triple (Quiet k) (Keyboard.findSession id) (fun s k' => Quiet k k' ∧ s.sessionId = id)
      (Quiet k) := by
  refine (Triple.get (Q := fun _ => Quiet k) fun _ h => h).bind fun a => ?_
  split
  · exact .throw fun _ h => h
  · next s hs =>
    have hid := List.find?_some (p := fun s : SessionInfo => s.sessionId = id) hs
    exact .pure fun _ h => ⟨h, of_decide_eq_true hid⟩

theorem create_spec {q : InputSequencer} {inputId : Js.Str} {maxBytes : Nat}
    (h : q.create s clientId connection payload inputId maxBytes = .ok (m, q')) :
    m.sessionId = s.sessionId ∧ m.payload = .utf8 payload := by
  unfold InputSequencer.create at h
  split at h
  · cases h
  split at h
  · cases h
  split at h
  · cases h
  split at h
  · cases h
  split at h
  · cases h
  split at h
  · cases h
  · cases h
    exact ⟨rfl, rfl⟩

theorem createInput_spec (s : SessionInfo) (payload inputId : Js.Str) (maxBytes : Nat) :
    Triple (Quiet k) (Keyboard.createInput s payload inputId maxBytes)
      (fun m k' => Quiet k k' ∧ m.sessionId = s.sessionId ∧ m.payload = .utf8 payload)
      (Quiet k) := by
  refine (Triple.get (Q := fun a k' => Quiet k k' ∧ Quiet k a) fun _ h => ⟨h, h⟩).bind fun a => ?_
  refine .given fun ha => (Triple.ofExcept (Q := fun created k' => Quiet k k' ∧
    created.1.sessionId = s.sessionId ∧ created.1.payload = .utf8 payload) ?_ fun _ h => h).bind
    fun created => .given fun hm => ?_
  · rintro ⟨m, q⟩ k' hcreated h
    exact ⟨h, create_spec hcreated⟩
  · obtain ⟨inputs, rfl⟩ := ha
    exact Triple.bind (Q := fun _ => Quiet k) (fun _ _ => ⟨created.2, rfl⟩) fun _ =>
      .pure fun _ h => ⟨h, hm⟩

theorem send_spec (ch : Channel) (m : InputMessage)
    (hm : m.sessionId ∈ k.pastes → m.payload = .utf8 CTRL_C) :
    Triple (Quiet k) (Keyboard.send ch m) (fun _ => Did k) (Quiet k) := by
  refine (Triple.get (Q := fun _ => Quiet k) fun _ h => h).bind fun a => ?_
  refine (bail_stills _ _).bind fun _ => (bail_stills _ _).bind fun _ => .modify ?_
  rintro _ ⟨inputs, rfl⟩
  exact .input inputs m hm

/-- What could not be sent is settled, and no more. -/
theorem orSettle_spec (inputId : Js.Str) {sending : Handler Unit}
    (h : Triple (Quiet k) sending (fun _ => Did k) (Quiet k)) :
    Triple (Quiet k) (Keyboard.orSettle inputId sending) (fun _ => Did k) (Did k) := by
  have hsent : Triple (Quiet k) (attempt sending : Handler (Except String Unit))
      (fun r k' => (r = .ok () → Did k k') ∧ ((∃ e, r = .error e) → Quiet k k')) (Did k) :=
    .attempt (h.conseq (fun _ => id) (fun _ _ hd => ⟨fun _ => hd, nofun⟩)
      fun _ hq e => ⟨nofun, fun _ => hq⟩)
  refine hsent.bind fun r => ?_
  cases r with
  | ok _ => exact .pure fun _ hk => hk.1 rfl
  | error e =>
    refine (Triple.modify (Q := fun _ => Did k) ?_).bind fun _ => .throw fun _ hk => hk
    intro k' hk
    obtain ⟨inputs, rfl⟩ := hk.2 ⟨e, rfl⟩
    exact .nothing _

theorem did_of_stills {p : Handler α} {Q : α → Keyboard → Prop}
    (h : Triple (Quiet k) p Q (Quiet k)) : Triple (Quiet k) p Q (Did k) :=
  h.conseq (fun _ => id) (fun _ _ => id) fun _ hq => hq.did

theorem input_spec (ch : Channel) (inputId id data : Js.Str) :
    Triple (Quiet k) (Keyboard.input ch inputId id data) (fun _ => Did k) (Did k) := by
  refine (Triple.get (Q := fun a k' => Quiet k k' ∧ Quiet k a) fun _ h => ⟨h, h⟩).bind fun a =>
    .given ?_
  rintro ⟨inputs, rfl⟩
  refine (Triple.bailIf (Q := fun _ k' => Quiet k k' ∧ k.pastes.allowed id data)
    (fun _ hok h => ⟨h, not_not.1 hok⟩) fun _ _ h => h.did).bind fun _ => .given fun hallowed => ?_
  refine (did_of_stills (findSession_spec id)).bind fun s => .given fun hs => ?_
  refine (did_of_stills (createInput_spec s data inputId 8192)).bind fun m => .given fun hm => ?_
  refine orSettle_spec _ (send_spec ch m fun hmem => ?_)
  rw [hm.1, hs] at hmem
  rw [hm.2, hallowed.resolve_left (not_not.2 hmem)]

theorem binaryInput_spec (ch : Channel) (inputId id binary : Js.Str) :
    Triple (Quiet k) (Keyboard.binaryInput ch inputId id binary) (fun _ => Did k) (Did k) := by
  refine (Triple.get (Q := fun a k' => Quiet k k' ∧ Quiet k a) fun _ h => ⟨h, h⟩).bind fun a =>
    .given ?_
  rintro ⟨inputs, rfl⟩
  refine (Triple.bailIf (Q := fun _ k' => Quiet k k' ∧ id ∉ k.pastes)
    (fun _ hok h => ⟨h, hok⟩) fun _ _ h => h.did).bind fun _ => .given fun hopen => ?_
  refine (did_of_stills (findSession_spec id)).bind fun s => .given fun hs => ?_
  refine (did_of_stills (createInput_spec s _ inputId 8192)).bind fun m => .given fun hm => ?_
  refine orSettle_spec _ ((ofExcept_stills _).bind fun base64 => send_spec ch _ fun hmem => ?_)
  rw [hm.1, hs] at hmem
  exact absurd hmem hopen

theorem finish_begin {g g' : PasteGate} {id text : Js.Str} (h : g.begin id text = .ok g') :
    id ∉ g ∧ g' = id :: g ∧ g'.finish id = g := by
  unfold PasteGate.begin at h
  cases hv : validatePaste text with
  | error e =>
    rw [hv] at h
    cases h
  | ok bytes =>
    rw [hv] at h
    change (if id ∈ g then _ else _) = _ at h
    split at h
    · cases h
    next hid =>
    cases h
    refine ⟨hid, rfl, ?_⟩
    unfold PasteGate.finish
    rw [List.filter_cons_of_neg (by simp), List.filter_eq_self]
    intro x hx
    rw [decide_eq_true_iff]
    rintro rfl
    exact hid hx

theorem paste_spec (inputId id text : Js.Str) (appendEnter : Bool) :
    Triple (Quiet k) (Keyboard.paste inputId id text appendEnter) (fun _ => Did k) (Did k) := by
  refine (did_of_stills (ofExcept_stills _)).bind fun _ => ?_
  refine (did_of_stills (findSession_spec id)).bind fun s => .given fun hs => ?_
  refine (Triple.get (Q := fun a k' => Quiet k k' ∧ Quiet k a) fun _ h => ⟨h, h⟩).bind fun a =>
    .given ?_
  rintro ⟨inputs, rfl⟩
  refine (Triple.ofExcept (Q := fun pastes k' => Quiet k k' ∧ k.pastes.begin id text = .ok pastes)
    (fun _ _ hbegin h => ⟨h, hbegin⟩) fun _ h => h.did).bind fun pastes => .given fun hbegin => ?_
  obtain ⟨hopen, rfl, hfinish⟩ := finish_begin hbegin
  let closed : Keyboard := { k with pastes := id :: k.pastes }
  refine Triple.bind (Q := fun _ => Quiet closed) (fun _ _ => ⟨inputs, rfl⟩) fun _ => ?_
  have hcreate : Triple (Quiet closed)
      (attempt (Keyboard.createInput s text inputId (256 * 1024)) :
        Handler (Except String InputMessage))
      (fun _ => Quiet closed) (Did k) :=
    .attempt ((createInput_spec s text inputId _).conseq (fun _ h => h) (fun _ _ h => h.1)
      fun _ h _ => h)
  refine hcreate.bind fun r => ?_
  cases r with
  | error e =>
    refine (Triple.modify (Q := fun _ => Did k) ?_).bind fun _ => .throw fun _ h => h
    rintro _ ⟨inputs, rfl⟩
    show Did k { k with inputs, pastes := PasteGate.finish (id :: k.pastes) id }
    rw [hfinish]
    exact .nothing inputs
  | ok m =>
    refine .modify ?_
    rintro _ ⟨inputs, rfl⟩
    exact .paste inputs ⟨id, m.agentEpoch, m.generation, k.page.c.connectionId, m.leaseEpoch,
      m.inputId, m.inputSeq, text, appendEnter⟩ hopen rfl

theorem Entry.run_did (x : Entry) (ch : Channel) (inputId : Js.Str) (k : Keyboard) :
    Did k (exec (x.run ch inputId) k).2 := by
  have hspec : Triple (Quiet k) (x.run ch inputId) (fun _ => Did k) (Did k) := by
    cases x with
    | input id data => exact input_spec ch inputId id data
    | binaryInput id binary => exact binaryInput_spec ch inputId id binary
    | paste id text appendEnter => exact paste_spec inputId id text appendEnter
  exact hspec.left (.refl k)

end Calls

/-- The pastes that began on the current connection keep the gates of their sessions closed. -/
structure Gated (k : Keyboard) : Prop where
  known : ∀ n f, k.flights n = some f → n < k.nextFlight ∧ f.link ≤ k.link
  closed : ∀ n f, k.flights n = some f → f.link = k.link → f.request.sessionId ∈ k.pastes
  sole : ∀ n m f g, k.flights n = some f → k.flights m = some g → f.link = k.link →
    g.link = k.link → f.request.sessionId = g.request.sessionId → n = m
  named : ∀ n f, k.flights n = some f → f.link = k.link →
    f.request.connectionId = k.page.c.connectionId

theorem Gated.start : Gated .start := ⟨nofun, nofun, nofun, nofun⟩

/-- On another connection there is no paste yet. -/
theorem Gated.next (h : Gated k) (hf : k'.flights = k.flights) (hn : k'.nextFlight = k.nextFlight)
    (hl : k'.link = k.link + 1) : Gated k' := by
  have hold (n : Nat) (f : Flight) (hnf : k'.flights n = some f) :
      n < k.nextFlight ∧ f.link < k'.link := by
    rw [hf] at hnf
    rw [hl]
    exact ⟨(h.known n f hnf).1, Nat.lt_succ_of_le (h.known n f hnf).2⟩
  exact
    { known := fun n f hnf => hn ▸ (hold n f hnf).imp_right Nat.le_of_lt
      closed := fun n f hnf hlink => absurd hlink (Nat.ne_of_lt (hold n f hnf).2)
      sole := fun n m f g hnf _ hlink => absurd hlink (Nat.ne_of_lt (hold n f hnf).2)
      named := fun n f hnf hlink => absurd hlink (Nat.ne_of_lt (hold n f hnf).2) }

theorem Gated.follow (h : Gated k) (es : List Event) (page : Page) : Gated (k.follow es page) := by
  unfold Keyboard.follow
  split
  · exact h.next rfl rfl rfl
  split
  · next hid => exact ⟨h.known, h.closed, h.sole, fun n f hnf hlink => hid ▸ h.named n f hnf hlink⟩
  · exact h.next rfl rfl rfl

theorem update_some {flights : Nat → Option Flight}
    (h : Function.update flights n x m = some f) : (m = n ∧ x = some f) ∨ flights m = some f := by
  rw [Function.update_apply] at h
  split at h
  · next hm => exact .inl ⟨hm, h⟩
  · exact .inr h

theorem Did.gated (hd : Did k k') (h : Gated k) : Gated k' := by
  cases hd with
  | nothing => exact ⟨h.known, h.closed, h.sole, h.named⟩
  | input => exact ⟨h.known, h.closed, h.sole, h.named⟩
  | paste inputs r hopen hid =>
    have hother {n : Nat} {f : Flight} (hnf : k.flights n = some f) (hlink : f.link = k.link) :
        f.request.sessionId ≠ r.sessionId :=
      fun he => hopen (he ▸ h.closed n f hnf hlink)
    refine ⟨fun n f hnf => ?_, fun n f hnf hlink => ?_, fun n m f g hnf hmg hf hg hs => ?_,
      fun n f hnf hlink => ?_⟩
    · rcases update_some hnf with ⟨rfl, hx⟩ | hnf
      · cases hx
        exact ⟨Nat.lt_succ_self _, Nat.le_refl _⟩
      · exact (h.known n f hnf).imp_left Nat.lt_succ_of_lt
    · rcases update_some hnf with ⟨rfl, hx⟩ | hnf
      · cases hx
        exact List.mem_cons_self ..
      · exact List.mem_cons_of_mem _ (h.closed n f hnf hlink)
    · rcases update_some hnf with ⟨rfl, hx⟩ | hnf <;> rcases update_some hmg with ⟨rfl, hy⟩ | hmg
      · rfl
      · cases hx
        exact absurd hs.symm (hother hmg hg)
      · cases hy
        exact absurd hs (hother hnf hf)
      · exact h.sole n m f g hnf hmg hf hg hs
    · rcases update_some hnf with ⟨rfl, hx⟩ | hnf
      · cases hx
        exact hid
      · exact h.named n f hnf hlink

/-- No paste of an earlier connection ends while one of its session is under way that began on the
current connection. -/
def Careful (k : Keyboard) (as : List Action) : Prop :=
  ∀ n f m g, .completed n ∈ as → k.flights n = some f → k.flights m = some g → g.link = k.link →
    g.request.sessionId = f.request.sessionId → f.link = k.link

theorem Gated.completed (h : Gated k) (hf : k.flights n = some f)
    (hc : Careful k [.completed n]) : Gated (k.completed n f) := by
  have hleft {m : Nat} {g : Flight} (hmg : Function.update k.flights n none m = some g) :
      m ≠ n ∧ k.flights m = some g := by
    rw [Function.update_apply] at hmg
    split at hmg
    · cases hmg
    · next hm => exact ⟨hm, hmg⟩
  refine ⟨fun m g hmg => h.known m g (hleft hmg).2, fun m g hmg hlink => ?_,
    fun m m' g g' hmg hmg' => h.sole m m' g g' (hleft hmg).2 (hleft hmg').2,
    fun m g hmg => h.named m g (hleft hmg).2⟩
  obtain ⟨hmn, hmg⟩ := hleft hmg
  refine List.mem_filter.2 ⟨h.closed m g hmg hlink, decide_eq_true fun hs => hmn ?_⟩
  -- the one that ends is of the current connection too, so it is the same
  have hcurrent := hc n f m g (List.mem_singleton_self _) hf hmg hlink hs
  exact h.sole m n g f hmg hf hlink hcurrent hs

def CarefulTurn (k : Keyboard) (as : List Action) (k' : Keyboard) : Prop :=
  Turn k as k' ∧ Careful k as

theorem CarefulTurn.gated (ht : CarefulTurn k as k') (h : Gated k) : Gated k' := by
  obtain ⟨ht, hc⟩ := ht
  cases ht with
  | page es page => exact h.follow es page
  | reply s a r hs =>
    split
    · exact ⟨h.known, h.closed, h.sole, h.named⟩
    · exact h
  | entry x ch inputId => exact (x.run_did ch inputId k).gated h
  | completed n f hf => exact h.completed hf hc

/-- While a paste of the current connection is under way, nothing else is sent for its session but
Ctrl+C. -/
def Excludes (k k' : Keyboard) : Prop :=
  ∃ new, k'.sent = k.sent ++ new ∧ ∀ x ∈ new, ∀ n f, k.flights n = some f → f.link = k.link →
    x.session = f.request.sessionId → x.CtrlC

theorem Excludes.refl (h : k'.sent = k.sent) : Excludes k k' :=
  ⟨[], by rw [h, List.append_nil], nofun⟩

theorem Did.excludes (hd : Did k k') (h : Gated k) : Excludes k k' := by
  cases hd with
  | nothing => exact .refl rfl
  | input inputs m hm =>
    refine ⟨_, rfl, fun x hx n f hnf hlink hs => ?_⟩
    obtain rfl := List.mem_singleton.1 hx
    have hclosed := h.closed n f hnf hlink
    rw [← hs] at hclosed
    exact hm hclosed
  | paste inputs r hopen =>
    refine ⟨_, rfl, fun x hx n f hnf hlink hs => ?_⟩
    obtain rfl := List.mem_singleton.1 hx
    have hclosed := h.closed n f hnf hlink
    rw [← hs] at hclosed
    exact absurd hclosed hopen

theorem Gated.excludes (h : Gated k) (ht : Turn k as k') : Excludes k k' := by
  cases ht with
  | page es page =>
    refine .refl ?_
    unfold Keyboard.follow
    split
    · rfl
    split <;> rfl
  | reply s a r hs => exact .refl (by split <;> rfl)
  | entry x ch inputId => exact (x.run_did ch inputId k).excludes h
  | completed n f hf => exact .refl rfl

theorem careful_page (k : Keyboard) (es : List Event) : Careful k (es.map .page) := by
  intro n f m g hn
  obtain ⟨e, -, he⟩ := List.mem_map.1 hn
  cases he

theorem careful_entry (k : Keyboard) (x : Entry) : Careful k [.entry x] := by
  intro n f m g hn
  cases List.mem_singleton.1 hn

theorem run_page (hr : Run CarefulTurn .start as k) (h : Step k.page es page) :
    Run CarefulTurn .start (as ++ es.map .page) (k.follow es page) :=
  hr.snoc ⟨.page k es page h, careful_page k es⟩

theorem run_entry (hr : Run CarefulTurn .start as k) (x : Entry) (ch : Channel) (inputId : Js.Str) :
    Run CarefulTurn .start (as ++ [.entry x]) (exec (x.run ch inputId) k).2 :=
  hr.snoc ⟨.entry k x ch inputId, careful_entry k x⟩

def pasteHost : HostInfo := ⟨[1], [2]⟩

def pasteSession : SessionInfo :=
  ⟨[7], none, [], [], [], [1], 1, Js.str "running", 80, 24, [], none⟩

def pasteLease (connectionId : Js.Str) (epoch : Nat) : LeaseView :=
  ⟨[2], connectionId, epoch, 15000⟩

/-- After a reconnect there is a paste of the new connection and one of the old connection, which
ends first. -/
theorem late_paste : ∃ as k f g, Run CarefulTurn .start as k ∧ k.flights 0 = some f ∧
    k.flights 1 = some g ∧ g.link = k.link ∧
      ∃ as' k', Turn (k.completed 0 f) as' k' ∧ ¬ Excludes (k.completed 0 f) k' := by
  have hopened := run_page (run_page (run_page (run_page (run_page (run_page (run_page .nil
    (.connect _)) (.authenticated _ 1 false rfl)) (.hosted _ 1 false pasteHost rfl))
    (.produce _ 0 _ [pasteSession] rfl rfl)) (.answered _ 0 _ [pasteSession] 0 rfl rfl))
    (.listed _ 1 false 0 _ rfl rfl rfl)) (.opened _ 1 false rfl)
  have hleased := run_page (run_page (run_page hopened
    (.message _ 0 1 (.hello 1 [1] [3]) rfl nofun)) (.grant _ [7] (pasteLease [3] 1)))
    (.message _ 0 1 (.lease 0 [7] (pasteLease [3] 1)) rfl (by rintro _ _ _ ⟨⟩; rfl))
  have hpasting := run_entry hleased (.paste [7] [97] false) ⟨true, 0⟩ [8]
  have hretried := run_page (run_page hpasting (.closed _ 0 1 rfl)) (.retry _ 0 (by decide))
  have hreopened := run_page (run_page (run_page (run_page (run_page (run_page hretried
    (.authenticated _ 2 true rfl)) (.hosted _ 2 true pasteHost rfl))
    (.produce _ 1 _ [pasteSession] rfl rfl)) (.answered _ 1 _ [pasteSession] 1 rfl rfl))
    (.listed _ 2 true 1 _ rfl rfl rfl)) (.opened _ 2 true rfl)
  have hreleased := run_page (run_page (run_page hreopened
    (.message _ 1 2 (.hello 1 [1] [4]) rfl nofun)) (.grant _ [7] (pasteLease [4] 2)))
    (.message _ 1 2 (.lease 1 [7] (pasteLease [4] 2)) rfl (by rintro _ _ _ ⟨⟩; rfl))
  have hboth := run_entry hreleased (.paste [7] [98] false) ⟨true, 0⟩ [9]
  refine ⟨_, _, _, _, hboth, rfl, rfl, by decide +kernel, _, _,
    .entry _ (.input [7] [120]) ⟨true, 0⟩ [10], ?_⟩
  rintro ⟨new, hnew, hall⟩
  have hsent : new = [.input ⟨[7], [1], 1, 2, [10], 3, .utf8 [120]⟩] := by
    refine List.append_cancel_left (hnew.symm.trans ?_)
    decide +kernel
  rw [hsent] at hall
  cases hall _ (List.mem_singleton_self _) 1 _ rfl (by decide +kernel) (by decide +kernel)

/-- If no paste of an earlier connection ends while one of the current connection is under way, the
gates of these stay closed, and they exclude whatever is sent next. -/
theorem paste_gate (hr : Run CarefulTurn .start as k) :
    (∀ n f, k.flights n = some f → f.link = k.link → f.request.sessionId ∈ k.pastes) ∧
      ∀ as' k', Turn k as' k' → Excludes k k' := by
  have h : Gated k := hr.preserves .start fun h ht => ht.gated h
  exact ⟨h.closed, fun _ _ ht => h.excludes ht⟩

theorem paste_gate_reconnected : ∃ as k g, Run CarefulTurn .start as k ∧ k.flights 1 = some g ∧
    g.link = k.link ∧ g.request.sessionId ∈ k.pastes ∧
      ∀ as' k', Turn k as' k' → Excludes k k' := by
  obtain ⟨as, k, f, g, hr, -, hg, hlink, -⟩ := late_paste
  obtain ⟨hclosed, hexcludes⟩ := paste_gate hr
  exact ⟨as, k, g, hr, hg, hlink, hclosed 1 g hg hlink, hexcludes⟩

/-- The end of the old paste opens the gate of the new one. -/
theorem paste_gate_opened : ¬ ∀ as k, Run Turn .start as k → ∀ as' k', Turn k as' k' →
    Excludes k k' := by
  intro h
  obtain ⟨as, k, f, g, hr, hf, -, -, as', k', ht, hnot⟩ := late_paste
  have hrun : Run Turn .start as k := hr.imp fun ht => ht.1
  exact hnot (h _ _ (hrun.snoc (.completed k 0 f hf)) as' k' ht)

end Client
end RemoteCodex
