import RemoteCodex.Platform.GuiInput

namespace RemoteCodex
set_option autoImplicit true
open Fallible
namespace GuiInput

/-- What the bookkeeping is about. -/
structure View where
  keys : List Key
  buttons : List UInt8
  enabled : Bool
  log : List Event

def State.view (s : State) : View := ⟨s.backend.keys, s.backend.buttons, s.backend.enabled, s.log⟩

/-- The event of a key going down or up. -/
def keyInput (k : Key) (down : Bool) (i : Input) : Prop := i = .key k.1 k.2 down false

/-- The event of a button going down or up. -/
def buttonInput (b : UInt8) (down : Bool) (i : Input) : Prop :=
  ∃ flag, buttonFlag b down = .ok flag ∧ i = .mouse flag 0 0 0

/-- The event is of no key and of no button. -/
def Plain (i : Input) : Prop := (∀ k down, ¬ keyInput k down i) ∧ ∀ b down, ¬ buttonInput b down i

/-- For each that is held there is an attempt to let it go. -/
def Covers (inp : α → Bool → Input → Prop) (held : List α)
    (attempts : List (List Input × Bool)) : Prop :=
  ∀ a ∈ held, ∀ i, inp a false i → ∃ ok, ([i], ok) ∈ attempts

/-- What a call of a method can do, one change at a time. -/
inductive Act (op : Op) : View → View → Prop where
  | armed (v : View) : Act op v { v with enabled := true }
  | sent (v : View) (inputs : List Input) (ok : Bool) (h : ok = true → ∀ i ∈ inputs, Plain i) :
      Act op v { v with log := v.log ++ [.sent inputs ok] }
  | key (v : View) (scan : UInt16) (extended down : Bool) (he : v.enabled = true)
      (hop : op = .apply (.key scan extended down))
      (hs : ¬ (down = true ∧ scan = 83 ∧ extended = true ∧ secureHeld v.keys = true)) :
      Act op v
        { v with
          keys := insertOrRemove down (scan, extended) v.keys
          log := v.log ++ [.sent [.key scan extended down false] true] }
  | button (v : View) (b : UInt8) (down : Bool) (flag : MouseFlag) (he : v.enabled = true)
      (hflag : buttonFlag b down = .ok flag) :
      Act op v
        { v with
          buttons := insertOrRemove down b v.buttons
          log := v.log ++ [.sent [.mouse flag 0 0 0] true] }
  | disarmed (v : View) (attempts : List (List Input × Bool))
      (hk : Covers keyInput v.keys attempts) (hb : Covers buttonInput v.buttons attempts) :
      Act op v ⟨[], [], false, v.log ++ [.disarmed attempts]⟩

/-- The property is kept by whatever the call can do. -/
def Closed (op : Op) (P : View → Prop) : Prop := ∀ v v', P v → Act op v v' → P v'

abbrev Keeps (P : View → Prop) (p : Gui α) : Prop :=
  Triple (fun s => P s.view) p (fun _ s => P s.view) fun s => P s.view

/-- Another property is kept too, unless the program fails. -/
abbrev Within (D P : View → Prop) (p : Gui α) : Prop :=
  Triple (fun s => P s.view ∧ D s.view) p (fun _ s => P s.view ∧ D s.view) fun s => P s.view

/-- The backend stays enabled, unless the program fails. -/
abbrev Stays (P : View → Prop) (p : Gui α) : Prop := Within (fun v => v.enabled = true) P p

section Quiet
variable {P : View → Prop} {E : State → Prop} (os : Os)

theorem ask_spec (answer : Nat → ρ) :
    Triple (fun s => P s.view) (ask answer) (fun _ s => P s.view) E := fun _ h => h

theorem ask_keeps (answer : Nat → ρ) : Keeps P (ask answer) := ask_spec answer

/-- What an answer is, whenever it is given. -/
theorem ask_answer {A : ρ → Prop} {answer : Nat → ρ} (h : ∀ n, A (answer n)) :
    Triple (fun s => P s.view) (ask answer) (fun a s => P s.view ∧ A a) E :=
  fun s hs => ⟨hs, h s.calls⟩

theorem sendInput_spec (inputs : List Input) :
    Triple (fun s => P s.view) (sendInput os inputs) (fun _ s => P s.view) E :=
  (ask_spec _).bind fun _ => .pure fun _ h => h

theorem bailIf_spec (c : Prop) [Decidable c] (text : String) : Keeps P (bailIf c text) :=
  .bailIf (fun _ _ h => h) fun _ _ h => h

theorem ofExcept_spec (x : Except String α) : Keeps P (ofExcept x : Gui α) :=
  .ofExcept (fun _ _ _ h => h) fun _ h => h

theorem get_spec : Keeps P (get : Gui State) := .get fun _ h => h

theorem expectWindow_spec (native : NativeSource) (met : Nat) (text : String) :
    Keeps P (expectWindow native met text) := by
  cases native with
  | window handle pid created => exact (ofExcept_spec _).bind fun _ => bailIf_spec _ _
  | monitor handle device => exact .pure fun _ h => h

theorem permitted_spec (window : Nat) : Keeps P (permitted os window) :=
  (ask_spec _).bind fun _ => (ask_spec _).bind fun _ => ofExcept_spec _

theorem expectAllowed_spec (text : String) : Keeps P (expectAllowed os text) :=
  (ask_spec _).bind fun _ => bailIf_spec _ _

/-- The checks change nothing. -/
theorem check_spec : Keeps P (check os) := by
  refine get_spec.bind fun s => (ask_spec _).bind fun _ => (bailIf_spec _ _).bind fun _ => ?_
  refine (ask_spec _).bind fun _ => (bailIf_spec _ _).bind fun _ => ?_
  refine (ask_spec _).bind fun _ => (ofExcept_spec _).bind fun _ => ?_
  refine (bailIf_spec _ _).bind fun _ => (ask_spec _).bind fun _ => ?_
  refine (ofExcept_spec _).bind fun _ => (bailIf_spec _ _).bind fun _ => ?_
  refine (ask_spec _).bind fun fg => ?_
  cases fg with
  | none => exact .throw fun _ h => h
  | some fg => exact (expectWindow_spec _ _ _).bind fun _ => permitted_spec os fg

theorem frame_spec : Keeps P (frame os) := (ask_spec _).bind fun _ => .modify fun _ h => h

/-- An attempt is recorded, whether or not it failed. -/
theorem send_spec (v : View) (inputs : List Input) :
    Triple (fun s => s.view = v) (send os inputs)
      (fun _ s => s.view = { v with log := v.log ++ [.sent inputs true] })
      (fun s => s.view = { v with log := v.log ++ [.sent inputs false] }) := by
  refine (sendInput_spec (P := fun w => w = v) os inputs).bind fun ok => ?_
  refine (Triple.modify (Q := fun _ (s : State) =>
    s.view = { v with log := v.log ++ [.sent inputs ok] }) ?_).bind fun _ => .bailIf ?_ ?_
  · rintro s rfl
    rfl
  · intro s hok h
    rwa [Bool.eq_true_of_not_eq_false hok] at h
  · rintro s rfl h
    exact h

end Quiet

section Released
variable {P : View → Prop} {E : State → Prop} (os : Os)

theorem releaseKey_spec (k : Key) :
    Triple (fun s => P s.view) (releaseKey os k)
      (fun a s => P s.view ∧ ∀ i, keyInput k false i → ∃ ok, a = ([i], ok)) E := by
  refine (sendInput_spec os _).bind fun ok => .pure fun s h => ⟨h, ?_⟩
  rintro i rfl
  exact ⟨ok, rfl⟩

theorem releaseButton_spec (b : UInt8) :
    Triple (fun s => P s.view) (releaseButton os b)
      (fun as s => P s.view ∧ ∀ i, buttonInput b false i → ∃ ok, ([i], ok) ∈ as) E := by
  unfold releaseButton
  split
  · next flag hflag =>
    refine (sendInput_spec os _).bind fun ok => .pure fun s h => ⟨h, ?_⟩
    rintro i ⟨flag', hflag', rfl⟩
    cases hflag.symm.trans hflag'
    exact ⟨ok, List.mem_singleton_self _⟩
  · next hnone =>
    refine .pure fun s h => ⟨h, ?_⟩
    rintro i ⟨flag, hflag, -⟩
    cases hnone.symm.trans hflag

theorem mem_forall₂ {R : α → β → Prop} {l : List α} {bs : List β} (h : List.Forall₂ R l bs)
    (ha : a ∈ l) : ∃ b ∈ bs, R a b := by
  induction h with
  | nil => cases ha
  | cons hab _ ih =>
    rcases List.mem_cons.1 ha with rfl | ha
    · exact ⟨_, List.mem_cons_self .., hab⟩
    · obtain ⟨b, hb, hr⟩ := ih ha
      exact ⟨b, List.mem_cons_of_mem _ hb, hr⟩

/-- Everything that was held is let go. -/
theorem releaseInjected_spec (v : View) :
    Triple (fun s => s.view = v) (releaseInjected os)
      (fun as s => s.view = { v with keys := [], buttons := [] } ∧
        Covers keyInput v.keys as ∧ Covers buttonInput v.buttons as) E := by
  refine (Triple.get (Q := fun a (s : State) => s.view = v ∧ a.view = v)
    fun s h => ⟨h, h⟩).bind fun s => ?_
  refine .given fun hs => ?_
  subst hs
  refine (ask_answer (P := fun w => w = s.view) (A := fun ks => ks.Perm s.view.keys)
    fun n => os.drainKeys_perm n _).bind fun ks => .given fun hks => ?_
  refine (Triple.modify (Q := fun _ t => t.view = { s.view with keys := [] }) ?_).bind fun _ => ?_
  · exact fun t ht => congrArg (fun w : View => { w with keys := [] }) ht
  refine (Triple.mapM (fun k => releaseKey_spec (P := fun w => w = { s.view with keys := [] }) os k)
    ks).bind fun released => .given fun hreleased => ?_
  refine (ask_answer (P := fun w => w = { s.view with keys := [] })
    (A := fun bs => bs.Perm s.view.buttons) fun n => os.drainButtons_perm n _).bind fun bs =>
    .given fun hbs => ?_
  refine (Triple.modify (Q := fun _ t => t.view = { s.view with keys := [], buttons := [] })
    ?_).bind fun _ => ?_
  · exact fun t ht => congrArg (fun w : View => { w with buttons := [] }) ht
  refine (Triple.mapM (fun b => releaseButton_spec
    (P := fun w => w = { s.view with keys := [], buttons := [] }) os b) bs).bind fun more =>
    .given fun hmore => ?_
  refine .pure fun t ht => ⟨ht, fun k hk i hi => ?_, fun b hb i hi => ?_⟩
  · obtain ⟨a, ha, hr⟩ := mem_forall₂ hreleased (hks.mem_iff.2 hk)
    obtain ⟨ok, rfl⟩ := hr i hi
    exact ⟨ok, List.mem_append_left _ ha⟩
  · obtain ⟨as, has, hr⟩ := mem_forall₂ hmore (hbs.mem_iff.2 hb)
    obtain ⟨ok, hok⟩ := hr i hi
    exact ⟨ok, List.mem_append_right _ (List.mem_flatten_of_mem has hok)⟩

end Released

section Calls
variable {op : Op} {P : View → Prop} {E : State → Prop} (os : Os)

/-- A disarm cannot fail. -/
theorem disarm_spec (h : Closed op P) :
    Triple (fun s => P s.view) (disarm os) (fun _ s => P s.view) E := by
  intro s hs
  have hdisarm : Triple (fun t => t.view = s.view) (disarm os) (fun _ t => P t.view) E := by
    refine (Triple.modify (Q := fun _ t => t.view = { s.view with enabled := false }) ?_).bind
      fun _ => (releaseInjected_spec os _).bind fun as => .given fun has => .modify ?_
    · exact fun t ht => congrArg (fun w : View => { w with enabled := false }) ht
    · intro t ht
      have hview := congrArg (fun w : View => { w with log := w.log ++ [Event.disarmed as] }) ht
      have hact := h s.view _ hs (.disarmed s.view as has.1 has.2)
      exact Eq.subst (motive := P) hview.symm hact
  exact hdisarm s rfl

theorem Within.of_keeps {D : View → Prop} {p : Gui α} (hp : Keeps (fun v => P v ∧ D v) p) :
    Within D P p := hp.conseq (fun _ => id) (fun _ _ => id) fun _ hs => hs.1

theorem Stays.of_keeps {p : Gui α} (hp : Keeps (fun v => P v ∧ v.enabled = true) p) : Stays P p :=
  Within.of_keeps hp

theorem Within.attempt {D : View → Prop} {p : Gui Unit} (hp : Within D P p) :
    Triple (fun s => P s.view ∧ D s.view) (attempt p : Gui (Except String Unit))
      (fun r s => P s.view ∧ (r = .ok () → D s.view)) (fun s => P s.view) :=
  .attempt (Triple.conseq hp (fun _ => id) (fun _ _ hs => ⟨hs.1, fun _ => hs.2⟩)
    fun _ hs _ => ⟨hs, nofun⟩)

/-- A failure is passed on after something else was done. -/
theorem Within.recover {D : View → Prop} {p : Gui Unit} {q : Gui β} (hp : Within D P p)
    (hq : Keeps P q) : Within D P (do
      match ← (Fallible.attempt p : Gui (Except String Unit)) with
      | .ok () => return ()
      | .error e =>
        let _ ← q
        throw e) := by
  refine hp.attempt.bind fun r => ?_
  cases r with
  | ok _ => exact .pure fun s hs => ⟨hs.1, hs.2 rfl⟩
  | error e =>
    exact (Triple.conseq hq (fun s hs => hs.1) (fun _ _ => id) fun _ => id).bind fun _ =>
      .throw fun _ => id

theorem checkLive_within (D : View → Prop) (h : Closed op P) : Within D P (checkLive os) :=
  Within.recover (Within.of_keeps (check_spec os)) (disarm_spec os h)

theorem checkLive_spec (h : Closed op P) : Stays P (checkLive os) := checkLive_within os _ h

/-- What is sent is of no key and of no button. -/
theorem plain_spec (h : Closed op P) {inputs : List Input} (hp : ∀ i ∈ inputs, Plain i)
    (C : Bool → Prop) : Keeps (fun v => P v ∧ C v.enabled) (send os inputs) := by
  intro s hs
  refine (send_spec os s.view inputs s rfl).imp (fun _ t ht => ?_) fun t ht => ?_
  · rw [ht]
    exact ⟨h _ _ hs.1 (.sent s.view inputs true fun _ => hp), hs.2⟩
  · rw [ht]
    exact ⟨h _ _ hs.1 (.sent s.view inputs false nofun), hs.2⟩

theorem plain_unicode (c : UInt16) (down : Bool) : Plain (.key c false down true) := by
  constructor
  · intro k d hk
    exact Bool.noConfusion (Input.key.inj hk).2.2.2
  · rintro b d ⟨flag, -, hb⟩
    cases hb

theorem buttonFlag_ne {b : UInt8} (h : buttonFlag b down = .ok flag) :
    flag ≠ .move ∧ flag ≠ .wheel := by
  unfold buttonFlag at h
  split at h <;> cases h <;> exact ⟨nofun, nofun⟩

theorem plain_mouse (hf : flag = .move ∨ flag = .wheel) (x y : Int) (data : Nat) :
    Plain (.mouse flag x y data) := by
  constructor
  · intro k d hk
    cases hk
  · rintro b d ⟨flag', hb, heq⟩
    cases heq
    exact hf.elim (buttonFlag_ne hb).1 (buttonFlag_ne hb).2

theorem moveTo_spec (h : Closed op P) (x y : F64) : Stays P (moveTo os x y) := by
  refine (Stays.of_keeps get_spec).bind fun s => (Stays.of_keeps (ofExcept_spec _)).bind fun p => ?_
  refine (Stays.of_keeps (ask_keeps _)).bind fun window => ?_
  cases window with
  | none => exact .throw fun _ hs => hs.1
  | some window =>
    refine (Stays.of_keeps (permitted_spec os window)).bind fun _ => ?_
    refine (Stays.of_keeps (expectWindow_spec _ _ _)).bind fun _ => ?_
    refine (Stays.of_keeps (ofExcept_spec _)).bind fun a => ?_
    refine Stays.of_keeps (plain_spec os h (fun i hi => ?_) (· = true))
    rw [List.mem_singleton.1 hi]
    exact plain_mouse (.inl rfl) _ _ _

theorem typeUnit_spec (h : Closed op P) (c : UInt16) : Stays P (typeUnit os c) := by
  refine (Stays.of_keeps (expectAllowed_spec os _)).bind fun _ => ?_
  refine (checkLive_spec os h).bind fun _ => ?_
  have hplain : ∀ i ∈ [Input.key c false true true, .key c false false true], Plain i := by
    intro i hi
    rcases List.mem_pair.1 hi with rfl | rfl
    · exact plain_unicode c true
    · exact plain_unicode c false
  refine Within.recover (Stays.of_keeps (plain_spec os h hplain (· = true))) (.attempt ?_)
  have hup := plain_spec os h (List.forall_mem_singleton.2 (plain_unicode c false)) fun _ => True
  exact hup.conseq (fun s hs => ⟨hs, trivial⟩) (fun _ s hs => hs.1) fun s hs e => hs.1

/-- What was sent is put down in the backend, if the call may do so. -/
theorem sent_spec (h : Closed op P) (inputs : List Input) {f : InputBackend → InputBackend}
    (C : View → Prop) (w : View → View)
    (hf : ∀ v (s : State), s.view = { v with log := v.log ++ [Event.sent inputs true] } →
      State.view { s with backend := f s.backend } = w v)
    (hact : ∀ v, v.enabled = true → C v → Act op v (w v) ∧ (w v).enabled = true) :
    Triple (fun s => P s.view ∧ s.view.enabled = true ∧ C s.view)
      (do send os inputs; update f)
      (fun _ s => P s.view ∧ s.view.enabled = true) fun s => P s.view := by
  rintro s ⟨hs, he, hc⟩
  have hlost := h _ _ hs (.sent s.view inputs false nofun)
  have hsend : Triple (fun t => t.view = s.view) (send os inputs)
      (fun _ t => t.view = { s.view with log := s.view.log ++ [.sent inputs true] })
      fun t => P t.view :=
    (send_spec os s.view inputs).conseq (fun _ => id) (fun _ _ => id) fun t ht => ht.symm ▸ hlost
  refine (hsend.bind fun _ => .modify fun t ht => ?_) s rfl
  obtain ⟨hw, hwe⟩ := hact s.view he hc
  have hview := hf s.view t ht
  exact ⟨hview.symm ▸ h _ _ hs hw, hview.symm ▸ hwe⟩

theorem pressKey_spec (scan : UInt16) (extended down : Bool)
    (h : Closed (.apply (.key scan extended down)) P) :
    Stays P (perform os (.key scan extended down)) := by
  let C (v : View) : Prop :=
    ¬ (down = true ∧ scan = 83 ∧ extended = true ∧ secureHeld v.keys = true)
  refine (Triple.get (Q := fun a (s : State) =>
    (P s.view ∧ s.view.enabled = true) ∧ a.view = s.view) fun s hs => ⟨hs, rfl⟩).bind fun a => ?_
  refine (Triple.bailIf (Q := fun _ (s : State) => P s.view ∧ s.view.enabled = true ∧ C s.view)
    ?_ ?_).bind fun _ => ?_
  · rintro s hguard ⟨hs, ha⟩
    have hkeys : a.backend.keys = s.view.keys := congrArg View.keys ha
    rw [hkeys] at hguard
    exact ⟨hs.1, hs.2, hguard⟩
  · exact fun s _ hs => hs.1.1
  refine ((expectAllowed_spec (P := fun v => P v ∧ v.enabled = true ∧ C v) os _).conseq
    (fun _ => id) (fun _ _ => id) fun s hs => hs.1).bind fun _ => ?_
  refine sent_spec os h _ C (fun v =>
    { v with
      keys := insertOrRemove down (scan, extended) v.keys
      log := v.log ++ [.sent [.key scan extended down false] true] }) ?_ ?_
  · intro v s hs
    exact congrArg (fun w : View =>
      { w with keys := insertOrRemove down (scan, extended) w.keys }) hs
  · exact fun v he hc => ⟨.key v scan extended down he rfl hc, he⟩

theorem pressButton_spec (x y : F64) (b : UInt8) (down : Bool) (h : Closed op P) :
    Stays P (perform os (.button x y b down)) := by
  refine (moveTo_spec os h x y).bind fun _ => ?_
  refine (Stays.of_keeps (expectAllowed_spec os _)).bind fun _ => ?_
  refine (Triple.ofExcept (Q := fun flag (s : State) => P s.view ∧ s.view.enabled = true ∧
    buttonFlag b down = .ok flag) (fun flag s hflag hs => ⟨hs.1, hs.2, hflag⟩)
    fun s hs => hs.1).bind fun flag => ?_
  refine sent_spec os h _ (fun _ => buttonFlag b down = .ok flag) (fun v =>
    { v with
      buttons := insertOrRemove down b v.buttons
      log := v.log ++ [.sent [.mouse flag 0 0 0] true] }) ?_ ?_
  · intro v s hs
    exact congrArg (fun w : View => { w with buttons := insertOrRemove down b w.buttons }) hs
  · exact fun v he hflag => ⟨.button v b down flag he hflag, he⟩

theorem perform_spec (a : GuiAction) (h : Closed (.apply a) P) : Stays P (perform os a) := by
  cases a with
  | move x y => exact moveTo_spec os h x y
  | button x y b down => exact pressButton_spec os x y b down h
  | wheel x y delta =>
    refine (moveTo_spec os h x y).bind fun _ => ?_
    refine (Stays.of_keeps (expectAllowed_spec os _)).bind fun _ => ?_
    refine Stays.of_keeps (plain_spec os h (fun i hi => ?_) (· = true))
    rw [List.mem_singleton.1 hi]
    exact plain_mouse (.inr rfl) _ _ _
  | key scan extended down => exact pressKey_spec os scan extended down h
  | text text => exact Triple.forM (typeUnit_spec os h) _

theorem apply_spec (a : GuiAction) (h : Closed (.apply a) P) : Keeps P (apply os a) := by
  refine (Triple.get (Q := fun b (s : State) => P s.view ∧ b.view = s.view)
    fun s hs => ⟨hs, rfl⟩).bind fun b => ?_
  refine (Triple.bailIf (Q := fun _ (s : State) => P s.view ∧ s.view.enabled = true) ?_ ?_).bind
    fun _ => ?_
  · rintro s hb ⟨hs, hbs⟩
    have henabled : b.backend.enabled = s.view.enabled := congrArg View.enabled hbs
    exact ⟨hs, henabled ▸ Bool.eq_true_of_not_eq_false hb⟩
  · exact fun s _ hs => hs.1
  refine (Stays.of_keeps (expectAllowed_spec os _)).bind fun _ => ?_
  refine (Stays.of_keeps (ofExcept_spec _)).bind fun _ => (checkLive_spec os h).bind fun _ => ?_
  exact (Within.recover (perform_spec os a h) (disarm_spec os h)).conseq (fun _ => id)
    (fun _ _ hs => hs.1) fun _ => id

theorem arm_spec (h : Closed op P) : Keeps P (arm os) := by
  refine (check_spec os).bind fun _ => .modify fun s hs => ?_
  exact h _ _ hs (.armed s.view)

/-- A method keeps what all of its changes keep, also when it fails. -/
theorem Op.run_spec (op : Op) (h : Closed op P) : Keeps P (op.run os) := by
  cases op with
  | frame => exact frame_spec os
  | arm => exact arm_spec os h
  | checkLive =>
    exact (checkLive_within os (fun _ => True) h).conseq (fun _ hs => ⟨hs, trivial⟩)
      (fun _ _ hs => hs.1) fun _ => id
  | disarm => exact disarm_spec os h
  | apply a => exact apply_spec os a h

end Calls

end GuiInput
end RemoteCodex
