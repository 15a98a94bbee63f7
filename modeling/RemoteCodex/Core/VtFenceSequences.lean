import RemoteCodex.Core.VtFenceTokens
import RemoteCodex.Core.VtFenceSafety
import RemoteCodex.Core.VtFenceText

namespace RemoteCodex
set_option autoImplicit true
open Utf8
namespace VtFence

/-- Read one byte of an input: the state with the bytes of the sequence that is open, and the
sequence that the byte completes. -/
def lex (q : State × List UInt8) (b : UInt8) : (State × List UInt8) × List (List UInt8) :=
  let s := q.1.next b
  if q.1 = .ground then ((s, if b = ESC then [b] else []), [])
  else if s = .ground then ((.ground, []), [q.2 ++ [b]])
  else ((s, q.2 ++ [b]), [])

/-- The complete sequences of an input, whether they are released or not. -/
def sequences (input : List UInt8) : List (List UInt8) := (Mealy.run lex (.ground, []) input).2

def intermediate (b : UInt8) : Bool := 0x20 ≤ b && b ≤ 0x2f

/-- The byte that selects the kind of sequence, and what follows it. -/
def selected (seq : List UInt8) : List UInt8 := (seq.drop 1).dropWhile intermediate

/-- Control sequences that are too long or cancelled, and device control, start of string,
privacy and application strings. -/
def refused (seq : List UInt8) : Bool :=
  match selected seq with
  | [] => false
  | c :: body =>
    if c = 0x5b then
      decide (1 < body.length) && decide (1024 < seq.length - 1) ||
        body.getLast? == some 0x18 || body.getLast? == some 0x1a
    else c == 0x50 || c == 0x5f || c == 0x5e || c == 0x58

/-- The sequences that the fence leaves out. -/
def omits (seq : List UInt8) : Bool :=
  decide (16 * 1024 < seq.length) || unsafeOsc seq || refused seq

/-- The open sequence is going to be refused. -/
def refusing (s : State) (held : List UInt8) : Bool :=
  match s with
  | .csi => decide (1 < (selected held).length) && decide (1024 < held.length)
  | .string | .stringEsc => true
  | _ => false

/-- Where an open sequence is, told by its bytes. -/
def Kind (rest : List UInt8) : State → Prop
  | .ground => False
  | .esc => rest = []
  | .csi => ∃ params, rest = 0x5b :: params
  | .osc | .oscEsc => ∃ body, rest = 0x5d :: body
  | .string | .stringEsc =>
    ∃ c body, rest = c :: body ∧ (c = 0x50 ∨ c = 0x5f ∨ c = 0x5e ∨ c = 0x58)

/-- The fence holds the open sequence back. -/
structure Holds (f : VtFence) (held : List UInt8) : Prop where
  utf8 : f.utf8 = []
  nonempty : held ≠ []
  pending : f.pending = held.take (16 * 1024)
  kind : Kind (selected held) f.state
  discard : f.discard = (decide (16 * 1024 < held.length) || refusing f.state held)

/-- The loop after the byte `b` of the open sequence `held`. -/
inductive Outcome (l : Loop) (held : List UInt8) (b : UInt8) : Loop → Prop where
  | holds (f : VtFence) (hf : Holds f (held ++ [b])) (hs : f.state = l.fence.state.next b)
      (ho : f.omitted = l.fence.omitted) : Outcome l held b { l with fence := f }
  | omitted (hs : l.fence.state.next b = .ground) (ho : omits (held ++ [b]) = true) :
      Outcome l held b ⟨⟨.ground, [], [], false, l.fence.omitted + 1⟩, l.out, l.text⟩
  | released (hs : l.fence.state.next b = .ground) (ho : omits (held ++ [b]) = false) :
      Outcome l held b
        ⟨⟨.ground, [], [], false, l.fence.omitted⟩, l.out ++ [held ++ [b]], l.text⟩

theorem selected_append (hne : held ≠ []) (b : UInt8) :
    selected (held ++ [b]) =
      if selected held = [] then (if intermediate b then [] else [b])
      else selected held ++ [b] := by
  cases held with
  | nil => exact absurd rfl hne
  | cons a held =>
    simp only [selected, List.cons_append, List.drop_succ_cons, List.drop_zero,
      List.dropWhile_append, List.isEmpty_iff]
    split
    · simp only [List.dropWhile_cons, List.dropWhile_nil]
    · rfl

/-- A pushed byte, before the state is set. -/
structure Pushed (f g : VtFence) (held : List UInt8) (b : UInt8) : Prop where
  utf8 : g.utf8 = []
  pending : g.pending = (held ++ [b]).take (16 * 1024)
  discard : g.discard = (decide (16 * 1024 < (held ++ [b]).length) || refusing f.state held)
  omitted : g.omitted = f.omitted

theorem Holds.push (h : Holds f held) (b : UInt8) : Pushed f (f.push b) held b := by
  have hlen : (held ++ [b]).length = held.length + 1 := by
    rw [List.length_append, List.length_singleton]
  have hpending : f.pending.length = min (16 * 1024) held.length := by
    rw [h.pending, List.length_take]
  rcases f.push_cases b with ⟨hlt, hpush⟩ | ⟨hle, hpush⟩
  · have hshort : held.length < 16 * 1024 := by omega
    have hno : ¬ 16 * 1024 < held.length := by omega
    have hno' : ¬ 16 * 1024 < (held ++ [b]).length := by omega
    rw [hpush]
    refine ⟨h.utf8, ?_, ?_, rfl⟩
    · rw [h.pending, List.take_of_length_le (by omega), List.take_of_length_le (by omega)]
    · rw [h.discard, decide_eq_false hno, decide_eq_false hno']
  · have hlong : 16 * 1024 ≤ held.length := by omega
    rw [hpush]
    refine ⟨h.utf8, ?_, ?_, rfl⟩
    · rw [h.pending, List.take_append_of_le_length hlong]
    · rw [decide_eq_true (show 16 * 1024 < (held ++ [b]).length by omega), Bool.true_or]

/-- A byte that leaves the sequence open. -/
theorem Pushed.goto {l : Loop} (h : Pushed l.fence g held b) {state : State} {d : Bool}
    (hne : held ≠ []) (hk : Kind (selected (held ++ [b])) state)
    (hd : d = (decide (16 * 1024 < (held ++ [b]).length) || refusing state (held ++ [b])))
    (hs : state = l.fence.state.next b) :
    Outcome l held b (l.goto { g with discard := d } state) :=
  .holds _ ⟨h.utf8, by simp only [ne_eq, List.append_eq_nil_iff, hne, false_and, not_false_eq_true],
    h.pending, hk, hd⟩ hs h.omitted

/-- A byte that completes the sequence. -/
theorem Pushed.complete {l : Loop} (h : Pushed l.fence g held b) {d : Bool}
    (hd : d = (decide (16 * 1024 < (held ++ [b]).length) || refused (held ++ [b])))
    (hs : l.fence.state.next b = .ground) :
    Outcome l held b (l.complete { g with discard := d }) := by
  have hpending : (held ++ [b]).length ≤ 16 * 1024 → g.pending = held ++ [b] := by
    intro hle
    rw [h.pending, List.take_of_length_le hle]
  unfold Loop.complete VtFence.complete
  simp only
  by_cases hx : (d || unsafeOsc g.pending) = true
  · have ho : omits (held ++ [b]) = true := by
      unfold omits
      by_cases hlong : 16 * 1024 < (held ++ [b]).length
      · simp only [hlong, decide_true, Bool.true_or]
      · rw [hpending (Nat.le_of_not_lt hlong), hd] at hx
        simp only [hlong, decide_false, Bool.false_or] at hx ⊢
        rw [Bool.or_comm]
        exact hx
    rw [if_pos hx]
    have hout := Outcome.omitted (l := l) hs ho
    simp only [reset, h.utf8, h.omitted]
    exact hout
  · rw [Bool.not_eq_true, Bool.or_eq_false_iff] at hx
    obtain ⟨hx, hu⟩ := hx
    rw [hd, Bool.or_eq_false_iff, decide_eq_false_iff_not] at hx
    rw [hpending (Nat.le_of_not_lt hx.1)] at hu ⊢
    have ho : omits (held ++ [b]) = false := by
      simp only [omits, hx.1, hx.2, hu, decide_false, Bool.or_self]
    have hne : (held ++ [b]).isEmpty = false := by
      rw [List.isEmpty_eq_false_iff]
      exact List.append_ne_nil_of_right_ne_nil _ (List.cons_ne_nil _ _)
    have hdf : d = false := by
      rw [hd, decide_eq_false hx.1, hx.2]
      rfl
    rw [hdf, hu, hne]
    simp only [Bool.or_self, Bool.false_eq_true, ↓reduceIte, reset, h.utf8, h.omitted]
    exact .released hs ho

theorem Holds.esc {l : Loop} (h : Holds l.fence held) (hst : l.fence.state = .esc) (b : UInt8) :
    Outcome l held b (l.pushEsc b) := by
  have hp := h.push b
  have hnil : selected held = [] := by
    have hkind := h.kind
    rw [hst] at hkind
    exact hkind
  have hsel := selected_append h.nonempty b
  rw [if_pos hnil] at hsel
  have hd : (l.fence.push b).discard = (decide (16 * 1024 < (held ++ [b]).length) || false) := by
    rw [hp.discard, hst]
    rfl
  have hother (hb : intermediate b = false) : selected (held ++ [b]) = [b] := by
    rw [hsel, hb]
    rfl
  unfold Loop.pushEsc
  simp only
  split
  · next hb =>
    subst hb
    refine hp.goto h.nonempty ⟨[], hother rfl⟩ (hd.trans ?_) (by rw [hst]; rfl)
    simp only [refusing, hother rfl, List.length_singleton, Nat.lt_irrefl, decide_false,
      Bool.false_and]
  · next hcsi =>
    split
    · next hb =>
      subst hb
      exact hp.goto h.nonempty ⟨[], hother rfl⟩ hd (by rw [hst]; rfl)
    · next hosc =>
      split
      · next hb =>
        have hn : State.string = l.fence.state.next b := by
          rw [hst]
          simp only [State.next, if_neg hcsi, if_neg hosc, if_pos hb]
        refine hp.goto h.nonempty ⟨b, [], hother ?_, hb⟩ (Bool.or_true _).symm hn
        rcases hb with rfl | rfl | rfl | rfl <;> rfl
      · next hstring =>
        split
        · next hb =>
          have hn : State.esc = l.fence.state.next b := by
            rw [hst]
            simp only [State.next, if_neg hcsi, if_neg hosc, if_neg hstring, if_pos hb]
          have hi : intermediate b = true := by
            simp only [intermediate, hb, decide_true, Bool.and_self]
          refine hp.goto h.nonempty ?_ hd hn
          rw [hsel, hi]
          rfl
        · next hb =>
          have hn : l.fence.state.next b = .ground := by
            rw [hst]
            simp only [State.next, if_neg hcsi, if_neg hosc, if_neg hstring, if_neg hb]
          have hi : intermediate b = false := by
            rw [← Bool.not_eq_true, intermediate, Bool.and_eq_true, decide_eq_true_eq,
              decide_eq_true_eq]
            exact hb
          have hr : refused (held ++ [b]) = false := by
            unfold refused
            rw [hother hi]
            simp only [not_or] at hstring
            simp only [if_neg hcsi, beq_eq_false_iff_ne.2 hstring.1,
              beq_eq_false_iff_ne.2 hstring.2.1, beq_eq_false_iff_ne.2 hstring.2.2.1,
              beq_eq_false_iff_ne.2 hstring.2.2.2, Bool.or_self]
          exact hp.complete (hd.trans (by rw [hr])) hn

theorem Holds.csi {l : Loop} (h : Holds l.fence held) (hst : l.fence.state = .csi) (b : UInt8) :
    Outcome l held b (l.pushCsi b) := by
  have hp := h.push b
  obtain ⟨params, hparams⟩ : ∃ params, selected held = 0x5b :: params := by
    have hkind := h.kind
    rw [hst] at hkind
    exact hkind
  have hsel := selected_append h.nonempty b
  rw [hparams, if_neg (List.cons_ne_nil _ _), List.cons_append] at hsel
  have hrefused : refused (held ++ [b]) = (refusing .csi held || b == 0x18 || b == 0x1a) := by
    simp only [refused, refusing, hsel, hparams, ↓reduceIte, List.getLast?_append,
      List.getLast?_singleton, Option.some_or, List.length_append, List.length_cons]
    rfl
  have hd : (l.fence.push b).discard =
      (decide (16 * 1024 < (held ++ [b]).length) || refusing .csi held) := by
    rw [hp.discard, hst]
  unfold Loop.pushCsi
  simp only
  split
  · next hb =>
    have hn : l.fence.state.next b = .ground := by
      rw [hst]
      simp only [State.next, if_pos hb]
    have h₁ : (b == 0x18) = false := by
      rw [beq_eq_false_iff_ne]
      rintro rfl
      exact absurd hb.1 (by decide)
    have h₂ : (b == 0x1a) = false := by
      rw [beq_eq_false_iff_ne]
      rintro rfl
      exact absurd hb.1 (by decide)
    exact hp.complete (hd.trans (by rw [hrefused, h₁, h₂, Bool.or_false, Bool.or_false])) hn
  · next hfinal =>
    split
    · next hb =>
      have hn : l.fence.state.next b = .ground := by
        rw [hst]
        simp only [State.next, if_neg hfinal, if_pos hb]
      refine hp.complete ?_ hn
      rw [hrefused]
      rcases hb with rfl | rfl
      · simp only [beq_self_eq_true, Bool.or_true, Bool.true_or]
      · simp only [beq_self_eq_true, Bool.or_true]
    · next hcancel =>
      have hn : State.csi = l.fence.state.next b := by
        rw [hst]
        simp only [State.next, if_neg hfinal, if_neg hcancel]
      have hmore : refusing .csi (held ++ [b]) = decide (1024 < (held ++ [b]).length) := by
        simp only [refusing, hsel, List.length_cons, List.length_append]
        rw [decide_eq_true (by omega), Bool.true_and]
      have hpending : (l.fence.push b).pending.length = min (16 * 1024) (held ++ [b]).length := by
        rw [hp.pending, List.length_take]
      split
      · next hlong =>
        refine hp.goto h.nonempty ⟨_, hsel⟩ ?_ hn
        rw [hmore, decide_eq_true (show 1024 < (held ++ [b]).length by omega), Bool.or_true]
      · next hshort =>
        refine hp.goto h.nonempty ⟨_, hsel⟩ (hd.trans ?_) hn
        have hno : ¬ 1024 < (held ++ [b]).length := by omega
        have hno' : ¬ 1024 < held.length := by
          rw [List.length_append] at hno
          omega
        rw [hmore, decide_eq_false hno]
        simp only [refusing, hno', decide_false, Bool.and_false]

/-- A byte in the body of a sequence, where the kind of the sequence decides what is refused. -/
theorem Holds.body {l : Loop} (h : Holds l.fence held) (b : UInt8) {r : Bool}
    (hnow : refusing l.fence.state held = r) (hr : refused (held ++ [b]) = r) :
    (∀ state, Kind (selected (held ++ [b])) state → refusing state (held ++ [b]) = r →
      l.fence.state.next b = state → Outcome l held b (l.goto (l.fence.push b) state)) ∧
    (l.fence.state.next b = .ground → Outcome l held b (l.complete (l.fence.push b))) := by
  have hp := h.push b
  have hd : (l.fence.push b).discard = (decide (16 * 1024 < (held ++ [b]).length) || r) := by
    rw [hp.discard, hnow]
  constructor
  · intro state hk hs hn
    exact hp.goto h.nonempty hk (hd.trans (by rw [hs])) hn.symm
  · intro hn
    exact hp.complete (hd.trans (by rw [hr])) hn

theorem Holds.osc {l : Loop} (h : Holds l.fence held)
    (hst : l.fence.state = .osc ∨ l.fence.state = .oscEsc) (b : UInt8) :
    (∀ state, state = .osc ∨ state = .oscEsc → l.fence.state.next b = state →
      Outcome l held b (l.goto (l.fence.push b) state)) ∧
    (l.fence.state.next b = .ground → Outcome l held b (l.complete (l.fence.push b))) := by
  obtain ⟨⟨body, hbody⟩, hnow⟩ :
      (∃ body, selected held = 0x5d :: body) ∧ refusing l.fence.state held = false := by
    have hkind := h.kind
    rcases hst with hst | hst
    · rw [hst] at hkind ⊢
      exact ⟨hkind, rfl⟩
    · rw [hst] at hkind ⊢
      exact ⟨hkind, rfl⟩
  have hsel := selected_append h.nonempty b
  rw [hbody, if_neg (List.cons_ne_nil _ _), List.cons_append] at hsel
  have hr : refused (held ++ [b]) = false := by
    unfold refused
    rw [hsel]
    rfl
  obtain ⟨hgoto, hcomplete⟩ := h.body b hnow hr
  refine ⟨fun state hs hn => ?_, hcomplete⟩
  rcases hs with rfl | rfl
  · exact hgoto _ ⟨_, hsel⟩ rfl hn
  · exact hgoto _ ⟨_, hsel⟩ rfl hn

theorem Holds.string {l : Loop} (h : Holds l.fence held)
    (hst : l.fence.state = .string ∨ l.fence.state = .stringEsc) (b : UInt8) :
    (∀ state, state = .string ∨ state = .stringEsc → l.fence.state.next b = state →
      Outcome l held b (l.goto (l.fence.push b) state)) ∧
    (l.fence.state.next b = .ground → Outcome l held b (l.complete (l.fence.push b))) := by
  obtain ⟨⟨c, body, hbody, hc⟩, hnow⟩ :
      (∃ c body, selected held = c :: body ∧ (c = 0x50 ∨ c = 0x5f ∨ c = 0x5e ∨ c = 0x58)) ∧
        refusing l.fence.state held = true := by
    have hkind := h.kind
    rcases hst with hst | hst
    · rw [hst] at hkind ⊢
      exact ⟨hkind, rfl⟩
    · rw [hst] at hkind ⊢
      exact ⟨hkind, rfl⟩
  have hsel := selected_append h.nonempty b
  rw [hbody, if_neg (List.cons_ne_nil _ _), List.cons_append] at hsel
  have hr : refused (held ++ [b]) = true := by
    unfold refused
    rw [hsel]
    rcases hc with rfl | rfl | rfl | rfl <;> rfl
  obtain ⟨hgoto, hcomplete⟩ := h.body b hnow hr
  refine ⟨fun state hs hn => ?_, hcomplete⟩
  rcases hs with rfl | rfl
  · exact hgoto _ ⟨c, _, hsel, hc⟩ rfl hn
  · exact hgoto _ ⟨c, _, hsel, hc⟩ rfl hn

/-- What one byte does to an open sequence. -/
theorem Holds.pushByte {l : Loop} (h : Holds l.fence held) (b : UInt8) :
    Outcome l held b (l.pushByte b) := by
  unfold Loop.pushByte
  cases hst : l.fence.state with
  | ground =>
    have hkind := h.kind
    rw [hst] at hkind
    exact hkind.elim
  | esc => exact h.esc hst b
  | csi => exact h.csi hst b
  | osc =>
    obtain ⟨hgoto, hcomplete⟩ := h.osc (.inl hst) b
    rw [hst] at hgoto hcomplete
    simp only [Loop.pushOsc]
    split
    · next hb => exact hcomplete (if_pos hb)
    · next hb =>
      split
      · next he => exact hgoto _ (.inr rfl) ((if_neg hb).trans (if_pos he))
      · next he => exact hgoto _ (.inl rfl) ((if_neg hb).trans (if_neg he))
  | oscEsc =>
    obtain ⟨hgoto, hcomplete⟩ := h.osc (.inr hst) b
    rw [hst] at hgoto hcomplete
    simp only [Loop.pushOscEsc]
    split
    · next hb => exact hcomplete (if_pos hb)
    · next hb => exact hgoto _ (.inl rfl) (if_neg hb)
  | string =>
    obtain ⟨hgoto, -⟩ := h.string (.inl hst) b
    rw [hst] at hgoto
    simp only [Loop.pushString]
    split
    · next hb => exact hgoto _ (.inr rfl) (if_pos hb)
    · next hb => exact hgoto _ (.inl rfl) (if_neg hb)
  | stringEsc =>
    obtain ⟨hgoto, hcomplete⟩ := h.string (.inr hst) b
    rw [hst] at hgoto hcomplete
    simp only [Loop.pushStringEsc]
    split
    · next hb => exact hcomplete (if_pos hb)
    · next hb => exact hgoto _ (.inl rfl) (if_neg hb)

theorem mend_whole (hu : u = [] ∨ Carry u) (b : UInt8) :
    Whole (mend u b).2 ∧ ((mend u b).1 = [] ∨ Carry (mend u b).1) := by
  have hreplacement : Whole replacement := scalar_replacement.whole
  rcases hu with rfl | hc
  · by_cases hlow : b < 0x80
    · rw [mend_low hlow]
      exact ⟨(scalar_of_ok (validate_low hlow)).whole, .inl rfl⟩
    · by_cases hlead : 0xc2 ≤ b
      · rw [mend_lead hlead]
        exact ⟨whole_nil, .inr (.lead b hlead)⟩
      · rw [mend_high (UInt8.not_lt.1 hlow) (UInt8.not_le.1 hlead)]
        exact ⟨hreplacement, .inl rfl⟩
  · rw [mend_carry hc.ne_nil]
    rcases hc.snoc b with ⟨hok, -⟩ | ⟨hmore, hcarry⟩ | ⟨n, hinv⟩
    · rw [hok]
      exact ⟨(hc.scalar hok).whole, .inl rfl⟩
    · rw [hmore]
      exact ⟨whole_nil, .inr hcarry⟩
    · rw [hinv]
      simp only
      split
      · next hlow =>
        exact ⟨hreplacement.append (scalar_of_ok (validate_low hlow)).whole, .inl trivial⟩
      · exact ⟨hreplacement, .inl trivial⟩

/-- An escape byte ends the text before it, and what is incomplete in it is malformed. -/
theorem pushByte_escape {l : Loop} (hs : l.fence.state = .ground)
    (hu : l.fence.utf8 = [] ∨ Carry l.fence.utf8) :
    l.pushByte ESC =
      ⟨{ l.fence with state := .esc, pending := l.fence.pending ++ [ESC], utf8 := [] },
        flush l.out (l.text ++ if l.fence.utf8.isEmpty then [] else replacement), []⟩ := by
  obtain ⟨⟨state, pending, utf8, discard, omitted⟩, out, text⟩ := l
  cases hs
  unfold Loop.pushByte Loop.pushGround
  rcases hu with hnil | hc
  · cases hnil
    simp only [List.isEmpty_nil, ↓reduceIte, List.append_nil]
    rfl
  · simp only at hc
    obtain ⟨n, hinv⟩ := hc.snoc_ascii (b := ESC) (by decide)
    have hne : utf8.isEmpty = false := by
      rw [List.isEmpty_eq_false_iff]
      exact hc.ne_nil
    simp only [hne, Bool.false_eq_true, ↓reduceIte, hinv]
    rfl

/-- What the fence holds back against what has been read of the input. -/
inductive Reads : VtFence → State × List UInt8 → Prop where
  | text (utf8 : List UInt8) (omitted : Nat) (hu : utf8 = [] ∨ Carry utf8) :
      Reads ⟨.ground, [], utf8, false, omitted⟩ (.ground, [])
  | sequence (f : VtFence) (held : List UInt8) (h : Holds f held) : Reads f (f.state, held)

/-- A byte adds text to the loop, or the sequences it completes. -/
inductive Adds (l : Loop) (completed : List (List UInt8)) : Loop → Prop where
  | text (f : VtFence) (more : List UInt8) (h : Whole more) (hc : completed = []) :
      Adds l completed ⟨f, l.out, l.text ++ more⟩
  | flushed (f : VtFence) (more : List UInt8) (h : Whole more) (hc : completed = []) :
      Adds l completed ⟨f, flush l.out (l.text ++ more), []⟩
  | sequences (f : VtFence) :
      Adds l completed ⟨f, l.out ++ completed.filter fun s => !omits s, l.text⟩

theorem Holds.state_ne (h : Holds f held) : f.state ≠ .ground := by
  intro hs
  have hkind := h.kind
  rw [hs] at hkind
  exact hkind

theorem lex_text (hb : b ≠ ESC) : lex (.ground, held) b = ((.ground, []), []) := by
  simp only [lex, ↓reduceIte, State.next, if_neg hb]

theorem lex_open (hs : s ≠ .ground) (hn : s.next b ≠ .ground) :
    lex (s, held) b = ((s.next b, held ++ [b]), []) := by
  simp only [lex, if_neg hs, if_neg hn]

theorem lex_complete (hs : s ≠ .ground) (hn : s.next b = .ground) :
    lex (s, held) b = ((.ground, []), [held ++ [b]]) := by
  simp only [lex, if_neg hs, if_pos hn]

theorem Reads.pushByte {l : Loop} (h : Reads l.fence q) (b : UInt8) :
    Reads (l.pushByte b).fence (lex q b).1 ∧ Adds l (lex q b).2 (l.pushByte b) := by
  obtain ⟨fence, out, text⟩ := l
  cases h with
  | text utf8 omitted hu =>
    by_cases hb : b = ESC
    · subst hb
      rw [pushByte_escape rfl hu]
      constructor
      · exact .sequence _ [ESC] ⟨rfl, List.cons_ne_nil _ _, rfl, rfl, rfl⟩
      · apply Adds.flushed _ _ _ rfl
        simp only
        split
        · exact whole_nil
        · exact scalar_replacement.whole
    · obtain ⟨hwhole, hcarry⟩ := mend_whole hu b
      rw [pushByte_text rfl hb, lex_text hb]
      exact ⟨.text _ omitted hcarry, .text _ _ hwhole rfl⟩
  | sequence _ held hh =>
    have hs := hh.state_ne
    have hout := Holds.pushByte (l := ⟨fence, out, text⟩) hh b
    simp only at hs
    generalize Loop.pushByte ⟨fence, out, text⟩ b = l' at hout
    cases hout with
    | holds f hf hst ho =>
      have hn : fence.state.next b ≠ .ground := hst ▸ hf.state_ne
      rw [lex_open hs hn]
      refine ⟨hst ▸ .sequence f _ hf, ?_⟩
      have hadds := Adds.text (l := ⟨fence, out, text⟩) f [] whole_nil rfl
      rw [List.append_nil] at hadds
      exact hadds
    | omitted hn ho =>
      rw [lex_complete hs hn]
      refine ⟨.text [] _ (.inl rfl), ?_⟩
      have hadds : Adds ⟨fence, out, text⟩ [held ++ [b]] _ :=
        .sequences ⟨.ground, [], [], false, fence.omitted + 1⟩
      rw [List.filter_singleton, ho] at hadds
      simp only [Bool.not_true, cond_false, List.append_nil] at hadds
      exact hadds
    | released hn ho =>
      rw [lex_complete hs hn]
      refine ⟨.text [] _ (.inl rfl), ?_⟩
      have hadds : Adds ⟨fence, out, text⟩ [held ++ [b]] _ :=
        .sequences ⟨.ground, [], [], false, fence.omitted⟩
      rw [List.filter_singleton, ho] at hadds
      simp only [Bool.not_false, cond_true] at hadds
      exact hadds

/-- A sequence that the fence leaves out, or that is UTF-8. -/
def Clean (seq : List UInt8) : Prop := omits seq = true ∨ validate seq = .ok

theorem Adds.clean (h : Adds l completed l') (ht : Whole l.text) :
    Whole l'.text ∧ ((∀ t ∈ l'.out, validate t = .ok) ↔
      (∀ t ∈ l.out, validate t = .ok) ∧ ∀ s ∈ completed, Clean s) := by
  cases h with
  | text f more hm hc =>
    subst hc
    refine ⟨ht.append hm, ?_⟩
    simp only [List.not_mem_nil, IsEmpty.forall_iff, implies_true, and_true]
  | flushed f more hm hc =>
    subst hc
    refine ⟨whole_nil, ?_⟩
    simp only [List.not_mem_nil, IsEmpty.forall_iff, implies_true, and_true, flush]
    split
    · rfl
    · simp only [List.mem_append, List.mem_singleton, or_imp, forall_and, forall_eq,
        (ht.append hm).valid, and_true]
  | sequences f =>
    refine ⟨ht, ?_⟩
    simp only [List.mem_append, or_imp, forall_and, List.mem_filter, Bool.not_eq_true', and_imp]
    apply and_congr_right
    intro _
    apply forall_congr'
    intro s
    apply imp_congr_right
    intro _
    unfold Clean
    cases omits s with
    | true => simp only [Bool.true_eq_false, false_imp_iff, true_or]
    | false => simp only [true_imp_iff, Bool.false_eq_true, false_or]

/-- Feed chunks one after another, collecting the tokens. -/
def pushAll (f : VtFence) : List (List UInt8) → VtFence × List (List UInt8)
  | [] => (f, [])
  | c :: cs =>
    let p := f.pushBytes c
    let q := pushAll p.1 cs
    (q.1, p.2 ++ q.2)

theorem Reads.foldl {l : Loop} (h : Reads l.fence q) (ht : Whole l.text) (bytes : List UInt8) :
    Reads (bytes.foldl Loop.pushByte l).fence (Mealy.run lex q bytes).1 ∧
      Whole (bytes.foldl Loop.pushByte l).text ∧
      ((∀ t ∈ (bytes.foldl Loop.pushByte l).out, validate t = .ok) ↔
        (∀ t ∈ l.out, validate t = .ok) ∧ ∀ s ∈ (Mealy.run lex q bytes).2, Clean s) := by
  induction bytes generalizing l q with
  | nil =>
    refine ⟨h, ht, ?_⟩
    simp only [List.foldl_nil, Mealy.run_nil, List.not_mem_nil, IsEmpty.forall_iff, implies_true,
      and_true]
  | cons b bytes ih =>
    obtain ⟨hreads, hadds⟩ := h.pushByte b
    obtain ⟨hwhole, hclean⟩ := hadds.clean ht
    obtain ⟨hreads', hwhole', hclean'⟩ := ih hreads hwhole
    refine ⟨hreads', hwhole', ?_⟩
    rw [List.foldl_cons, hclean', hclean, Mealy.run_cons]
    simp only [List.mem_append, or_imp, forall_and, and_assoc]

theorem Reads.pushBytes (h : Reads f q) (bytes : List UInt8) :
    Reads (f.pushBytes bytes).1 (Mealy.run lex q bytes).1 ∧
      ((∀ t ∈ (f.pushBytes bytes).2, validate t = .ok) ↔
        ∀ s ∈ (Mealy.run lex q bytes).2, Clean s) := by
  obtain ⟨hreads, hwhole, hclean⟩ := Reads.foldl (l := ⟨f, [], []⟩) h whole_nil bytes
  refine ⟨hreads, ?_⟩
  have hflush := (Adds.flushed (l := bytes.foldl Loop.pushByte ⟨f, [], []⟩) f [] whole_nil
    rfl).clean hwhole
  rw [List.append_nil] at hflush
  rw [show (f.pushBytes bytes).2 = flush _ _ from rfl, hflush.2, hclean]
  simp only [List.not_mem_nil, IsEmpty.forall_iff, implies_true, true_and, and_true]

theorem Reads.pushAll (h : Reads f q) (chunks : List (List UInt8)) :
    Reads (f.pushAll chunks).1 (Mealy.run lex q chunks.flatten).1 ∧
      ((∀ t ∈ (f.pushAll chunks).2, validate t = .ok) ↔
        ∀ s ∈ (Mealy.run lex q chunks.flatten).2, Clean s) := by
  induction chunks generalizing f q with
  | nil =>
    refine ⟨h, ?_⟩
    simp only [VtFence.pushAll, List.flatten_nil, Mealy.run_nil, List.not_mem_nil,
      IsEmpty.forall_iff, implies_true]
  | cons c cs ih =>
    obtain ⟨hreads, hclean⟩ := h.pushBytes c
    obtain ⟨hreads', hclean'⟩ := ih hreads
    rw [List.flatten_cons, Mealy.run_append]
    refine ⟨hreads', ?_⟩
    simp only [VtFence.pushAll, List.mem_append, or_imp, forall_and]
    rw [hclean, hclean']

theorem reads_default : Reads default (.ground, []) := .text [] 0 (.inl rfl)

/-- All tokens are UTF-8 exactly when the sequences of the input that are not left out are. -/
theorem tokens_utf8_iff (chunks : List (List UInt8)) :
    (∀ t ∈ (default.pushAll chunks).2, validate t = .ok) ↔
      ∀ s ∈ sequences chunks.flatten, omits s = true ∨ validate s = .ok :=
  (reads_default.pushAll chunks).2

/-- A scalar after an escape byte is torn apart. -/
theorem token_malformed : ¬ ∀ chunks : List (List UInt8),
    ∀ t ∈ (default.pushAll chunks).2, validate t = .ok := by
  intro h
  have htoken : [ESC, 0xC3] ∈ (default.pushAll [[ESC, 0xC3, 0xA9]]).2 := by decide
  exact absurd (h [[ESC, 0xC3, 0xA9]] _ htoken) (by decide)

theorem lex_state (q : State × List UInt8) (b : UInt8) : (lex q b).1.1 = q.1.next b := by
  unfold lex
  simp only
  split
  · rfl
  · split
    · next hn => exact hn.symm
    · rfl

theorem Reads.state (h : Reads f q) : f.state = q.1 := by
  cases h <;> rfl

theorem Reads.ground (h : Reads f q) (hs : f.state = .ground) : f.pending = [] := by
  cases h with
  | text => rfl
  | sequence _ held hh => exact absurd hs hh.state_ne

/-- Inside an OSC, device control, start of string, privacy or application string. -/
def State.inString : State → Bool
  | .osc | .oscEsc | .string | .stringEsc => true
  | _ => false

/-- The string terminator ends a string unless an escape byte was the last byte before it. -/
theorem terminator_iff (chunks ends : List (List UInt8))
    (hs : (default.pushAll chunks).1.state.inString = true) (he : ends.flatten = [ESC, 0x5c]) :
    (((default.pushAll chunks).1.pushAll ends).1.state = .ground ∧
        ((default.pushAll chunks).1.pushAll ends).1.pending = []) ↔
      (default.pushAll chunks).1.state = .osc ∨ (default.pushAll chunks).1.state = .string := by
  obtain ⟨hreads, -⟩ := reads_default.pushAll chunks
  generalize (default.pushAll chunks).1 = f at hs hreads ⊢
  obtain ⟨hended, -⟩ := hreads.pushAll ends
  have hstate : (f.pushAll ends).1.state = (f.state.next ESC).next 0x5c := by
    rw [hended.state, he, hreads.state, Mealy.run_cons, Mealy.run_cons, Mealy.run_nil]
    simp only
    rw [lex_state, lex_state]
  have hpending := hended.ground
  rw [hstate] at hpending ⊢
  cases hf : f.state with
  | ground | esc | csi =>
    rw [hf] at hs
    cases hs
  | osc =>
    rw [hf] at hpending
    exact iff_of_true ⟨rfl, hpending rfl⟩ (.inl rfl)
  | string =>
    rw [hf] at hpending
    exact iff_of_true ⟨rfl, hpending rfl⟩ (.inr rfl)
  | oscEsc | stringEsc =>
    apply iff_of_false
    · rintro ⟨hground, -⟩
      cases hground
    · rintro (ho | ho) <;> cases ho

/-- A device control string, ended byte by byte. -/
theorem terminator_ends :
    ((default.pushAll [[ESC, 0x50, 0x78]]).1.pushAll [[ESC], [0x5c]]).1.state = .ground :=
  ((terminator_iff [[ESC, 0x50, 0x78]] [[ESC], [0x5c]] rfl rfl).2 (.inr rfl)).1

/-- An escape byte before the terminator hides it. -/
theorem terminator_missed : ¬ ∀ chunks : List (List UInt8),
    (default.pushAll chunks).1.state.inString = true →
      ((default.pushAll chunks).1.pushAll [[ESC, 0x5c]]).1.state = .ground ∧
        ((default.pushAll chunks).1.pushAll [[ESC, 0x5c]]).1.pending = [] := by
  intro h
  exact absurd (h [[ESC, 0x50, 0x78, ESC]] rfl).1 (by decide)

end VtFence
end RemoteCodex
