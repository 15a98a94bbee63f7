import RemoteCodex.Lib.Marker
import RemoteCodex.Core.VtFence

namespace RemoteCodex
set_option autoImplicit true
open Marker
namespace VtFence

/-- What may not follow an escape byte: `]52;`, `]8;`, `P`, `X`, `^` and `_`. -/
def introducers : List (List UInt8) :=
  [[0x5d, 0x35, 0x32, 0x3b], [0x5d, 0x38, 0x3b], [0x50], [0x58], [0x5e], [0x5f]]

/-- The bytes contain a dangerous control string. -/
def Leaks (l : List UInt8) : Prop := Occurs ESC introducers l

instance (l : List UInt8) : Decidable (Leaks l) := inferInstanceAs (Decidable (Occurs ..))

/-- A byte that makes the fence release an escape byte that something else can follow: a second
escape byte in an escape sequence, an escape byte inside a control sequence, or the last byte
of an introducer inside an OSC body that is otherwise released. -/
def Exposes (f : VtFence) (b : UInt8) : Prop :=
  f.discard = false ∧
    match f.state with
    | .esc => b = ESC ∧ f.pending.length < 16 * 1024
    | .csi => b = ESC ∧ f.pending.length < 1024
    | .osc | .oscEsc =>
      unsafeOsc f.pending = false ∧ f.pending.length + 2 ≤ 16 * 1024 ∧
        ¬ Leaks (f.pending.drop 1) ∧ Leaks (f.pending.drop 1 ++ [b])
    | _ => False

def Intermediate (b : UInt8) : Prop := 0x20 ≤ b ∧ b ≤ 0x2f

/-- Intermediate bytes, then the byte that selects the kind of sequence. -/
def Headed (c : UInt8) (l : List UInt8) : Prop :=
  ∃ inter body, l = inter ++ c :: body ∧ ∀ b ∈ inter, Intermediate b

/-- An OSC sequence that is being held back: it will be dropped, or no introducer occurs in it
after its first escape byte. -/
def OscKept (f : VtFence) : Prop :=
  f.discard = true ∨ 16 * 1024 ≤ f.pending.length ∨ unsafeOsc f.pending = true ∨
    ∃ rest, f.pending = ESC :: rest ∧ ¬ Leaks rest ∧ Headed 0x5d rest

/-- What the fence holds back, in each state. -/
def Contained (f : VtFence) : Prop :=
  match f.state with
  | .ground =>
    f.pending = [] ∧ f.discard = false ∧ (f.utf8 = [] ∨ Utf8.Carry f.utf8)
  | .esc => f.utf8 = [] ∧ ∃ inter, f.pending = ESC :: inter ∧ ∀ b ∈ inter, Intermediate b
  | .csi => f.utf8 = [] ∧
    (f.discard = true ∨ ∃ rest, f.pending = ESC :: rest ∧ ESC ∉ rest ∧ Headed 0x5b rest)
  | .osc | .oscEsc => f.utf8 = [] ∧ f.OscKept
  | .string | .stringEsc => f.utf8 = [] ∧ f.discard = true

theorem Intermediate.ne_head (h : Intermediate b) : ∀ p ∈ introducers, p.head? ≠ some b := by
  intro p hp he
  simp only [introducers, List.mem_cons, List.not_mem_nil, or_false] at hp
  obtain ⟨hlo, hhi⟩ := h
  rcases hp with rfl | rfl | rfl | rfl | rfl | rfl <;> cases he <;> revert hhi <;> decide

/-- A list that does not start like an introducer. -/
theorem apart_of_head (h : ∀ p ∈ introducers, p.head? ≠ some b) :
    ∀ p ∈ introducers, Apart (b :: l) p := by
  intro p hp
  have hne := h p hp
  cases p with
  | nil => exact absurd hp (by decide)
  | cons a p =>
    apply Apart.of_head
    rintro rfl
    exact hne rfl

theorem Headed.apart (h : Headed c l) (hc : ∀ p ∈ introducers, p.head? ≠ some c) :
    ∀ p ∈ introducers, Apart l p := by
  obtain ⟨inter, body, rfl, hi⟩ := h
  cases inter with
  | nil => exact apart_of_head hc
  | cons b inter => exact apart_of_head (hi b (List.mem_cons_self ..)).ne_head

theorem Headed.append (h : Headed c l) (m : List UInt8) : Headed c (l ++ m) := by
  obtain ⟨inter, body, rfl, hi⟩ := h
  exact ⟨inter, body ++ m, by rw [List.append_assoc, List.cons_append], hi⟩

/-- A byte of a sequence is kept, or the sequence is given up. -/
theorem push_cases (f : VtFence) (b : UInt8) :
    f.pending.length < 16 * 1024 ∧ f.push b = { f with pending := f.pending ++ [b] } ∨
      16 * 1024 ≤ f.pending.length ∧ f.push b = { f with discard := true } := by
  unfold push
  split
  · next h => exact .inl ⟨h, rfl⟩
  · next h => exact .inr ⟨Nat.le_of_not_lt h, rfl⟩

theorem push_utf8 (f : VtFence) (b : UInt8) : (f.push b).utf8 = f.utf8 := by
  rcases f.push_cases b with ⟨_, hpush⟩ | ⟨_, hpush⟩ <;> rw [hpush]

theorem complete_cases (f : VtFence) :
    (f.complete []).1.state = .ground ∧ (f.complete []).1.pending = [] ∧
      (f.complete []).1.discard = false ∧ (f.complete []).1.utf8 = f.utf8 ∧
      ((f.complete []).2 = [] ∨
        f.discard = false ∧ unsafeOsc f.pending = false ∧ (f.complete []).2 = [f.pending]) := by
  unfold complete
  split
  · exact ⟨rfl, rfl, rfl, rfl, .inl rfl⟩
  · next h =>
    rw [Bool.or_eq_true, not_or, Bool.not_eq_true, Bool.not_eq_true] at h
    split
    · exact ⟨rfl, rfl, rfl, rfl, .inl rfl⟩
    · exact ⟨rfl, rfl, rfl, rfl, .inr ⟨h.1, h.2, rfl⟩⟩

/-- The outcome of a byte: the fence is contained and what it released is sealed. -/
structure Fenced (l : Loop) : Prop where
  contained : Contained l.fence
  sealed : Sealed ESC introducers l.released

theorem sealed_nil : Sealed ESC introducers [] := sealed_of_not_mem (by decide)

theorem Fenced.goto (f g : VtFence) (state : State) (h : Contained { g with state }) :
    Fenced (Loop.goto ⟨f, [], []⟩ g state) :=
  ⟨h, sealed_nil⟩

theorem Fenced.complete (f g : VtFence) (hu : g.utf8 = [])
    (h : g.discard = false → unsafeOsc g.pending = false →
      Sealed ESC introducers g.pending) :
    Fenced (Loop.complete ⟨f, [], []⟩ g) := by
  obtain ⟨hs, hp, hd, hu', hout⟩ := g.complete_cases
  constructor
  · simp only [Loop.complete, Contained, hs]
    exact ⟨hp, hd, .inl (hu'.trans hu)⟩
  · simp only [Loop.complete, Loop.released, List.append_nil]
    rcases hout with hnil | ⟨hdis, huns, hone⟩
    · rw [hnil]
      exact sealed_nil
    · rw [hone, List.flatten_singleton]
      exact h hdis huns

theorem Fenced.ground (f : VtFence) (hs : f.state = .ground) (h : Contained f) (b : UInt8) :
    Fenced (Loop.pushGround ⟨f, [], []⟩ b) := by
  simp only [Contained, hs] at h
  obtain ⟨hp, hd, hu⟩ := h
  have htext {utf8 bytes : List UInt8} (hu : utf8 = [] ∨ Utf8.Carry utf8) (hb : ESC ∉ bytes) :
      Fenced ⟨{ f with utf8 }, [], [] ++ bytes⟩ := by
    constructor
    · simp only [Contained, hs]
      exact ⟨hp, hd, hu⟩
    · exact sealed_of_not_mem hb
  have hesc (text : List UInt8) (hb : ESC ∉ text) :
      Fenced (Loop.enterEsc ⟨{ f with utf8 := [] }, [], text⟩ ESC) := by
    constructor
    · refine ⟨rfl, [], ?_, by simp⟩
      simp only [Loop.enterEsc, hp, List.nil_append]
    · simp only [Loop.released, Loop.enterEsc, flatten_flush]
      exact sealed_of_not_mem (by simpa using hb)
  have hrep : ESC ∉ Utf8.replacement := by decide
  unfold Loop.pushGround
  rcases hu with hu | hcarry
  · rw [if_pos (by simp only [hu, List.isEmpty_nil])]
    split
    · next hb =>
      subst hb
      rw [show (f : VtFence) = { f with utf8 := [] } by rw [← hu]]
      exact hesc [] (by decide)
    · next hb =>
      have hne : ESC ∉ [b] := by
        rw [List.mem_singleton]
        exact Ne.symm hb
      split
      · next hlead =>
        simp only [Loop.setUtf8, hu, List.nil_append]
        exact htext (.inr (.lead b hlead)) (by decide)
      · split
        · exact htext (.inl hu) hrep
        · exact htext (.inl hu) hne
  · have hlow {x : UInt8} (hx : x ∈ f.utf8) : x ≠ ESC := by
      rintro rfl
      exact absurd (hcarry.high _ hx) (by decide)
    have hne : f.utf8.isEmpty = false := by
      rw [List.isEmpty_eq_false_iff]
      intro hnil
      rw [hnil] at hcarry
      cases hcarry
    rw [if_neg (by simp only [hne, Bool.false_eq_true, not_false_eq_true])]
    simp only
    rcases hcarry.snoc b with ⟨hok, hhigh⟩ | ⟨hinc, hcarry'⟩ | ⟨n, hinv⟩
    · rw [hok]
      refine htext (.inl rfl) ?_
      intro hm
      rcases List.mem_append.1 hm with hm | hm
      · exact hlow hm rfl
      · rw [← List.mem_singleton.1 hm] at hhigh
        exact absurd hhigh (by decide)
    · rw [hinc]
      exact htext (.inr hcarry') (by decide)
    · rw [hinv]
      simp only
      split
      · split
        · next hb =>
          subst hb
          exact hesc Utf8.replacement hrep
        · next hb =>
          refine htext (.inl rfl) ?_
          intro hm
          rcases List.mem_append.1 (show ESC ∈ Utf8.replacement ++ [b] from hm) with hm | hm
          · exact hrep hm
          · exact hb (List.mem_singleton.1 hm).symm
      · exact htext (.inl rfl) hrep

/-- `ESC` and a tail that does not start like an introducer and has no further `ESC`. -/
theorem sealed_sequence (h : ESC ∉ rest) (ha : ∀ p ∈ introducers, Apart rest p) :
    Sealed ESC introducers (ESC :: rest) :=
  sealed_cons (sealed_of_not_mem h) ha

theorem Intermediate.ne_esc (h : Intermediate b) : b ≠ ESC := by
  rintro rfl
  exact absurd h.1 (by decide)

theorem unsafeOsc_eq (l : List UInt8) :
    unsafeOsc (ESC :: l) = true ↔ [0x5d, 0x35, 0x32, 0x3b] <+: l ∨ [0x5d, 0x38, 0x3b] <+: l := by
  simp only [unsafeOsc, Bool.or_eq_true, List.isPrefixOf_iff_prefix, List.cons_prefix_cons,
    true_and]

/-- The escape state after a byte that neither selects a kind of sequence nor extends one. -/
theorem apart_final (h₁ : b ≠ 0x5d) (h₂ : ¬ (b = 0x50 ∨ b = 0x5f ∨ b = 0x5e ∨ b = 0x58)) :
    ∀ p ∈ introducers, p.head? ≠ some b := by
  intro p hp he
  simp only [introducers, List.mem_cons, List.not_mem_nil, or_false] at hp
  rcases hp with rfl | rfl | rfl | rfl | rfl | rfl <;> cases he <;> simp at h₁ h₂

theorem exposes_esc (hs : f.state = .esc) :
    Exposes f b ↔ f.discard = false ∧ b = ESC ∧ f.pending.length < 16 * 1024 := by
  unfold Exposes
  rw [hs]

theorem exposes_csi (hs : f.state = .csi) :
    Exposes f b ↔ f.discard = false ∧ b = ESC ∧ f.pending.length < 1024 := by
  unfold Exposes
  rw [hs]

theorem exposes_osc (hs : f.state = .osc ∨ f.state = .oscEsc) :
    Exposes f b ↔ f.discard = false ∧ unsafeOsc f.pending = false ∧
      f.pending.length + 2 ≤ 16 * 1024 ∧ ¬ Leaks (f.pending.drop 1) ∧
        Leaks (f.pending.drop 1 ++ [b]) := by
  unfold Exposes
  rcases hs with hs | hs <;> rw [hs]

theorem Fenced.esc (f : VtFence) (hs : f.state = .esc) (h : Contained f)
    (he : ¬ Exposes f b) : Fenced (Loop.pushEsc ⟨f, [], []⟩ b) := by
  simp only [Contained, hs] at h
  obtain ⟨hu, inter, hp, hi⟩ := h
  have hupd : (f.push b).utf8 = [] := (f.push_utf8 b).trans hu
  -- a kept byte follows the intermediates, an overlong sequence is discarded
  have hkept : (f.push b).discard = true ∨
      (f.push b).discard = f.discard ∧ f.pending.length < 16 * 1024 ∧
        (f.push b).pending = ESC :: (inter ++ [b]) := by
    rcases f.push_cases b with ⟨hlt, hpush⟩ | ⟨_, hpush⟩
    · right
      rw [hpush]
      exact ⟨rfl, hlt, by simp only [hp, List.cons_append]⟩
    · left
      rw [hpush]
  unfold Loop.pushEsc
  simp only
  split
  · next hb =>
    subst hb
    refine .goto _ _ _ ⟨hupd, ?_⟩
    rcases hkept with hd | ⟨_, _, hk⟩
    · exact .inl hd
    · refine .inr ⟨_, hk, ?_, inter, [], rfl, hi⟩
      intro hm
      rcases List.mem_append.1 hm with hm | hm
      · exact (hi _ hm).ne_esc rfl
      · cases List.mem_singleton.1 hm
  · split
    · next hb =>
      subst hb
      refine .goto _ _ _ ⟨hupd, ?_⟩
      rcases hkept with hd | ⟨_, _, hk⟩
      · exact .inl hd
      · refine .inr (.inr (.inr ⟨_, hk, ?_, inter, [], rfl, hi⟩))
        intro hl
        rcases List.mem_append.1 hl.marker_mem with hm | hm
        · exact (hi _ hm).ne_esc rfl
        · cases List.mem_singleton.1 hm
    · next hosc =>
      split
      · exact .goto _ _ _ ⟨hupd, rfl⟩
      · next hstring =>
        split
        · next hinter =>
          refine .goto _ _ _ ⟨hupd, ?_⟩
          rcases f.push_cases b with ⟨_, hpush⟩ | ⟨_, hpush⟩
          · refine ⟨inter ++ [b], by simp only [hpush, hp, List.cons_append], ?_⟩
            intro x hx
            rcases List.mem_append.1 hx with hx | hx
            · exact hi x hx
            · exact List.mem_singleton.1 hx ▸ hinter
          · exact ⟨inter, by simp only [hpush, hp], hi⟩
        · apply Fenced.complete _ _ hupd
          intro hd _
          rcases hkept with hd' | ⟨hdis, hlt, hk⟩
          · rw [hd'] at hd
            cases hd
          · have hb : b ≠ ESC := by
              rintro rfl
              exact he ((exposes_esc hs).2 ⟨hdis ▸ hd, rfl, hlt⟩)
            rw [hk]
            apply sealed_sequence
            · intro hm
              rcases List.mem_append.1 hm with hm | hm
              · exact (hi _ hm).ne_esc rfl
              · exact hb (List.mem_singleton.1 hm).symm
            · exact Headed.apart ⟨inter, [], rfl, hi⟩ (apart_final hosc hstring)

theorem Fenced.csi (f : VtFence) (hs : f.state = .csi) (h : Contained f)
    (he : ¬ Exposes f b) : Fenced (Loop.pushCsi ⟨f, [], []⟩ b) := by
  simp only [Contained, hs] at h
  obtain ⟨hu, h⟩ := h
  have hupd : (f.push b).utf8 = [] := (f.push_utf8 b).trans hu
  have hkept : (f.push b).discard = true ∨ (f.push b).discard = false ∧ f.discard = false ∧
      ∃ rest, (f.push b).pending = ESC :: (rest ++ [b]) ∧ ESC ∉ rest ∧ Headed 0x5b rest := by
    rcases h with hd | ⟨rest, hp, hr, hh⟩
    · left
      rcases f.push_cases b with ⟨_, hpush⟩ | ⟨_, hpush⟩
      · rw [hpush]
        exact hd
      · rw [hpush]
    · rcases f.push_cases b with ⟨_, hpush⟩ | ⟨_, hpush⟩
      · cases hd : f.discard with
        | true =>
          left
          rw [hpush]
          exact hd
        | false =>
          right
          rw [hpush]
          exact ⟨hd, rfl, rest, by simp only [hp, List.cons_append], hr, hh⟩
      · left
        rw [hpush]
  unfold Loop.pushCsi
  simp only
  split
  · next hfinal =>
    apply Fenced.complete _ _ hupd
    intro hd _
    rcases hkept with hd' | ⟨_, _, rest, hk, hr, hh⟩
    · rw [hd'] at hd
      cases hd
    · rw [hk]
      apply sealed_sequence
      · intro hm
        rcases List.mem_append.1 hm with hm | hm
        · exact hr hm
        · rw [← List.mem_singleton.1 hm] at hfinal
          exact absurd hfinal.1 (by decide)
      · exact (hh.append [b]).apart (by decide)
  · split
    · apply Fenced.complete _ { f.push b with discard := true } hupd
      intro hd
      cases hd
    · split
      · exact .goto _ _ _ ⟨hupd, .inl rfl⟩
      · next hshort =>
        refine .goto _ _ _ ⟨hupd, ?_⟩
        rcases hkept with hd | ⟨_, hd, rest, hk, hr, hh⟩
        · exact .inl hd
        · refine .inr ⟨rest ++ [b], hk, ?_, hh.append [b]⟩
          intro hm
          rcases List.mem_append.1 hm with hm | hm
          · exact hr hm
          · have hb : b = ESC := (List.mem_singleton.1 hm).symm
            refine he ((exposes_csi hs).2 ⟨hd, hb, ?_⟩)
            rcases f.push_cases b with ⟨_, hpush⟩ | ⟨hlong, hpush⟩
            · rw [hpush] at hshort
              simp only [List.length_append, List.length_singleton] at hshort
              omega
            · rw [hpush] at hshort
              simp only at hshort
              omega

theorem unsafeOsc_append (h : unsafeOsc l = true) (m : List UInt8) :
    unsafeOsc (l ++ m) = true := by
  simp only [unsafeOsc, Bool.or_eq_true, List.isPrefixOf_iff_prefix] at h ⊢
  exact h.imp (fun h => h.trans (List.prefix_append l m)) fun h => h.trans (List.prefix_append l m)

/-- A byte that does not expose keeps an OSC sequence contained. -/
theorem OscKept.push (h : OscKept f) (hs : f.state = .osc ∨ f.state = .oscEsc)
    (he : ¬ Exposes f b) : OscKept (f.push b) := by
  rcases f.push_cases b with ⟨hlt, hpush⟩ | ⟨_, hpush⟩
  · rw [hpush]
    rcases h with hd | hlong | huns | ⟨rest, hp, hl, hh⟩
    · exact .inl hd
    · omega
    · exact .inr (.inr (.inl (unsafeOsc_append huns [b])))
    · by_cases hleak : Leaks (rest ++ [b])
      · rw [exposes_osc hs, hp] at he
        simp only [List.drop_one, List.tail_cons, hl, hleak, not_false_eq_true, and_true,
          not_and, Nat.not_le] at he
        cases hd : f.discard with
        | true => exact .inl rfl
        | false =>
          cases huns : unsafeOsc f.pending with
          | true => exact .inr (.inr (.inl (unsafeOsc_append huns [b])))
          | false =>
            have hlen := he hd (hp ▸ huns)
            right; left
            simp only [hp, List.length_append, List.length_cons] at hlen ⊢
            simp only [List.length_nil]
            omega
      · refine .inr (.inr (.inr ⟨rest ++ [b], ?_, hleak, hh.append [b]⟩))
        simp only [hp, List.cons_append]
  · rw [hpush]
    exact .inl rfl

/-- The end of a contained OSC sequence: BEL or the backslash of a string terminator. -/
theorem OscKept.sealed (h : OscKept f) (hb : b = 7 ∨ b = 0x5c)
    (hd : (f.push b).discard = false) (hu : unsafeOsc (f.push b).pending = false) :
    Sealed ESC introducers (f.push b).pending := by
  rcases f.push_cases b with ⟨hlt, hpush⟩ | ⟨_, hpush⟩
  · rw [hpush] at hd hu ⊢
    rcases h with hd' | hlong | huns | ⟨rest, hp, hl, hh⟩
    · rw [hd'] at hd
      cases hd
    · omega
    · rw [unsafeOsc_append huns [b]] at hu
      cases hu
    · simp only [hp, List.cons_append] at hu ⊢
      have hne : b ≠ ESC := by
        rcases hb with rfl | rfl <;> decide
      have hnot : ∀ p ∈ introducers, b ∉ p := by
        rcases hb with rfl | rfl <;> decide
      refine sealed_cons (sealed_snoc hl hne hnot) ?_
      intro p hp'
      constructor
      · intro hpre
        obtain ⟨inter, body, hrest, hi⟩ := hh.append [b]
        rw [← Bool.not_eq_true, unsafeOsc_eq, not_or] at hu
        cases inter with
        | nil =>
          rw [hrest] at hpre hu
          simp only [introducers, List.mem_cons, List.not_mem_nil, or_false] at hp'
          rcases hp' with rfl | rfl | rfl | rfl | rfl | rfl
          · exact hu.1 hpre
          · exact hu.2 hpre
          all_goals exact absurd (List.cons_prefix_cons.1 hpre).1 (by decide)
        | cons c inter =>
          rw [hrest] at hpre
          exact (apart_of_head (hi c (List.mem_cons_self ..)).ne_head p hp').1 hpre
      · intro hpre
        exact hnot p hp' (hpre.subset (List.mem_append_right rest (List.mem_singleton_self b)))
  · rw [hpush] at hd
    cases hd

theorem Fenced.osc (f : VtFence) (hs : f.state = .osc) (h : Contained f)
    (he : ¬ Exposes f b) : Fenced (Loop.pushOsc ⟨f, [], []⟩ b) := by
  simp only [Contained, hs] at h
  obtain ⟨hu, hk⟩ := h
  have hupd : (f.push b).utf8 = [] := (f.push_utf8 b).trans hu
  unfold Loop.pushOsc
  simp only
  split
  · next hb => exact .complete _ _ hupd (hk.sealed (.inl hb))
  · split
    · exact .goto _ _ _ ⟨hupd, hk.push (.inl hs) he⟩
    · exact .goto _ _ _ ⟨hupd, hk.push (.inl hs) he⟩

theorem Fenced.oscEsc (f : VtFence) (hs : f.state = .oscEsc) (h : Contained f)
    (he : ¬ Exposes f b) : Fenced (Loop.pushOscEsc ⟨f, [], []⟩ b) := by
  simp only [Contained, hs] at h
  obtain ⟨hu, hk⟩ := h
  have hupd : (f.push b).utf8 = [] := (f.push_utf8 b).trans hu
  unfold Loop.pushOscEsc
  simp only
  split
  · next hb => exact .complete _ _ hupd (hk.sealed (.inr hb))
  · exact .goto _ _ _ ⟨hupd, hk.push (.inr hs) he⟩

/-- A string body is discarded whole. -/
theorem push_discard (hd : f.discard = true) (b : UInt8) : (push f b).discard = true := by
  rcases f.push_cases b with ⟨_, hpush⟩ | ⟨_, hpush⟩
  · rw [hpush]
    exact hd
  · rw [hpush]

theorem Fenced.string (f : VtFence) (hs : f.state = .string) (h : Contained f) (b : UInt8) :
    Fenced (Loop.pushString ⟨f, [], []⟩ b) := by
  simp only [Contained, hs] at h
  have hupd : (f.push b).utf8 = [] := (f.push_utf8 b).trans h.1
  unfold Loop.pushString
  split <;> exact .goto _ _ _ ⟨hupd, push_discard h.2 b⟩

theorem Fenced.stringEsc (f : VtFence) (hs : f.state = .stringEsc) (h : Contained f)
    (b : UInt8) : Fenced (Loop.pushStringEsc ⟨f, [], []⟩ b) := by
  simp only [Contained, hs] at h
  have hupd : (f.push b).utf8 = [] := (f.push_utf8 b).trans h.1
  have hdis := push_discard h.2 b
  unfold Loop.pushStringEsc
  simp only
  split
  · apply Fenced.complete _ _ hupd
    intro hd
    rw [hdis] at hd
    cases hd
  · exact .goto _ _ _ ⟨hupd, hdis⟩

/-- One byte: what is held back stays contained and what is released is sealed. -/
theorem Fenced.step (h : Contained f) (he : ¬ Exposes f b) :
    Contained (step f b).1 ∧ Sealed ESC introducers (step f b).2 := by
  have hfenced : Fenced (Loop.pushByte ⟨f, [], []⟩ b) := by
    unfold Loop.pushByte
    cases hs : f.state with
    | ground => exact .ground f hs h b
    | esc => exact .esc f hs h he
    | csi => exact .csi f hs h he
    | osc => exact .osc f hs h he
    | oscEsc => exact .oscEsc f hs h he
    | string => exact .string f hs h b
    | stringEsc => exact .stringEsc f hs h b
  exact ⟨hfenced.contained, hfenced.sealed⟩

/-- No byte of the input exposes. -/
def Unexposed (f : VtFence) (input : List UInt8) : Prop :=
  Mealy.Admits step (fun f b => ¬ Exposes f b) f input

theorem Contained.run (h : Contained f) (he : Unexposed f input) :
    Contained (Mealy.run step f input).1 ∧
      Sealed ESC introducers (Mealy.run step f input).2 := by
  induction input generalizing f with
  | nil => exact ⟨h, sealed_nil⟩
  | cons b input ih =>
    obtain ⟨hb, hrest⟩ := he
    obtain ⟨hc, hs⟩ := Fenced.step h hb
    obtain ⟨hc', hs'⟩ := ih hc hrest
    exact ⟨hc', hs.append hs'⟩

theorem contained_default : Contained default := ⟨rfl, rfl, .inl rfl⟩

/-- A byte that completes a sequence which is neither discarded nor an unsafe OSC. -/
theorem step_release {f g : VtFence}
    (h : Loop.pushByte ⟨f, [], []⟩ b = Loop.complete ⟨f, [], []⟩ g) (hd : g.discard = false)
    (hu : unsafeOsc g.pending = false) (hp : g.pending ≠ []) :
    step f b = (g.reset, g.pending) := by
  have hne : g.pending.isEmpty = false := List.isEmpty_eq_false_iff.2 hp
  simp only [step, h, Loop.complete, VtFence.complete, hd, hu, hne, Bool.or_self,
    Bool.false_eq_true, ↓reduceIte, Loop.released, List.nil_append, List.flatten_singleton,
    List.append_nil]

theorem push_short (h : f.pending.length < 16 * 1024) (b : UInt8) :
    push f b = { f with pending := f.pending ++ [b] } := if_pos h

theorem Headed.safe_osc (h : Headed c l) (hc : c ≠ 0x5d) : unsafeOsc (ESC :: l) = false := by
  rw [← Bool.not_eq_true, unsafeOsc_eq]
  obtain ⟨inter, body, rfl, hi⟩ := h
  have hhead (p : List UInt8) (hp : 0x5d :: p <+: inter ++ c :: body) : False := by
    cases inter with
    | nil => exact hc (List.cons_prefix_cons.1 hp).1.symm
    | cons d inter =>
      have hd := (hi d (List.mem_cons_self ..)).ne_head _ (List.mem_cons_self ..)
      exact hd (congrArg some (List.cons_prefix_cons.1 hp).1)
  rintro (h | h)
  · exact hhead _ h
  · exact hhead _ h

theorem leaks_infix (a c : List UInt8) (hp : p ∈ introducers) : Leaks (a ++ ESC :: p ++ c) :=
  ⟨p, hp, a, c, rfl⟩

/-- A released second escape byte is followed by whatever text comes next. -/
theorem esc_leaks (h : Contained f) (hs : f.state = .esc) (he : Exposes f b) :
    Leaks (Mealy.run step f [b, 0x50]).2 := by
  simp only [Contained, hs] at h
  obtain ⟨hu, inter, hp, hi⟩ := h
  obtain ⟨hd, rfl, hlt⟩ := (exposes_esc hs).1 he
  have hhead : Headed ESC (inter ++ [ESC]) := ⟨inter, [], rfl, hi⟩
  have hpush : (f.push ESC).pending = ESC :: (inter ++ [ESC]) := by
    rw [push_short hlt, hp, List.cons_append]
  have hfirst : step f ESC = ((f.push ESC).reset, (f.push ESC).pending) := by
    apply step_release
    · simp only [Loop.pushByte, hs]
      rfl
    · rw [push_short hlt]
      exact hd
    · rw [hpush]
      exact hhead.safe_osc (by decide)
    · rw [hpush]
      exact List.cons_ne_nil _ _
  have hsecond : step (f.push ESC).reset 0x50 = ((f.push ESC).reset, [0x50]) := by
    rw [push_short hlt]
    simp only [step, Loop.pushByte, reset, Loop.pushGround, hu, List.isEmpty_nil, ↓reduceIte]
    rfl
  have hrun : (Mealy.run step f [ESC, 0x50]).2 = ESC :: inter ++ ESC :: [0x50] ++ [] := by
    rw [Mealy.run_cons, Mealy.run_cons, Mealy.run_nil, hfirst, hsecond, hpush]
    simp only [List.append_nil, List.cons_append, List.append_assoc, List.nil_append]
  rw [hrun]
  exact leaks_infix _ _ (by decide)

/-- An escape byte inside a control sequence is followed by the final byte. -/
theorem csi_leaks (h : Contained f) (hs : f.state = .csi) (he : Exposes f b) :
    Leaks (Mealy.run step f [b, 0x50]).2 := by
  simp only [Contained, hs] at h
  obtain ⟨hd, rfl, hlt⟩ := (exposes_csi hs).1 he
  obtain ⟨_, hd' | ⟨rest, hp, _, hh⟩⟩ := h
  · rw [hd] at hd'
    cases hd'
  · have hlt' : f.pending.length < 16 * 1024 := by omega
    have hlen : (f.pending ++ [ESC]).length < 1025 := by
      rw [List.length_append, List.length_singleton]
      omega
    have hfirst : step f ESC = ({ f with pending := f.pending ++ [ESC] }, []) := by
      have hshort : ¬ 1024 < (f.pending ++ [ESC]).length := by omega
      simp only [step, Loop.pushByte, hs, Loop.pushCsi, push_short hlt', if_neg hshort]
      rfl
    have hsecond : step { f with pending := f.pending ++ [ESC] } 0x50 =
        (({ f with pending := f.pending ++ [ESC] ++ [0x50] } : VtFence).reset,
          f.pending ++ [ESC] ++ [0x50]) := by
      apply step_release (g := { f with pending := f.pending ++ [ESC] ++ [0x50] })
      · simp only [Loop.pushByte, hs, Loop.pushCsi]
        rw [push_short (Nat.lt_trans hlen (by decide))]
        rfl
      · exact hd
      · simp only [hp, List.cons_append]
        exact ((hh.append [ESC]).append [0x50]).safe_osc (by decide)
      · simp only [hp, List.cons_append, ne_eq, reduceCtorEq, not_false_eq_true]
    have hrun : (Mealy.run step f [ESC, 0x50]).2 = f.pending ++ ESC :: [0x50] ++ [] := by
      rw [Mealy.run_cons, Mealy.run_cons, Mealy.run_nil, hfirst, hsecond]
      simp only [List.append_nil, List.nil_append, List.append_assoc, List.cons_append]
    rw [hrun]
    exact leaks_infix _ _ (by decide)

/-- The last byte of an introducer inside an OSC body is released with the sequence. -/
theorem osc_leaks (h : Contained f) (hs : f.state = .osc ∨ f.state = .oscEsc)
    (he : Exposes f b) : Leaks (Mealy.run step f [b, 7]).2 := by
  have hkept : f.OscKept := by
    rcases hs with hs | hs <;> simp only [Contained, hs] at h <;> exact h.2
  obtain ⟨hd, hu, hlen, hsafe, hleak⟩ := (exposes_osc hs).1 he
  obtain ⟨rest, hp, hh⟩ : ∃ rest, f.pending = ESC :: rest ∧ Headed 0x5d rest := by
    rcases hkept with hd' | hlong | huns | ⟨rest, hp, _, hh⟩
    · rw [hd] at hd'
      cases hd'
    · omega
    · rw [hu] at huns
      cases huns
    · exact ⟨rest, hp, hh⟩
  simp only [hp, List.drop_one, List.tail_cons] at hsafe hleak
  have hlast : b = 0x3b ∨ b = 0x50 ∨ b = 0x58 ∨ b = 0x5e ∨ b = 0x5f := by
    obtain ⟨p, hp, hpb⟩ := Occurs.last hleak hsafe (by decide)
    simp only [introducers, List.mem_cons, List.not_mem_nil, or_false] at hp
    rcases hp with rfl | rfl | rfl | rfl | rfl | rfl <;> cases hpb <;> decide
  have hfirst : step f b = ({ f with pending := f.pending ++ [b], state := .osc }, []) := by
    have hlt : f.pending.length < 16 * 1024 := by omega
    have h₁ : b ≠ 7 := by rcases hlast with rfl | rfl | rfl | rfl | rfl <;> decide
    have h₂ : b ≠ ESC := by rcases hlast with rfl | rfl | rfl | rfl | rfl <;> decide
    have h₃ : b ≠ 0x5c := by rcases hlast with rfl | rfl | rfl | rfl | rfl <;> decide
    rcases hs with hs | hs
    · simp only [step, Loop.pushByte, hs, Loop.pushOsc, if_neg h₁, if_neg h₂, push_short hlt]
      rfl
    · simp only [step, Loop.pushByte, hs, Loop.pushOscEsc, if_neg h₃, push_short hlt]
      rfl
  have hend : unsafeOsc (f.pending ++ [b] ++ [7]) = false := by
    have hesc : ESC ∈ rest := by
      rcases List.mem_append.1 hleak.marker_mem with hm | hm
      · exact hm
      · rw [← List.mem_singleton.1 hm] at hlast
        exact absurd hlast (by decide)
    simp only [hp, List.cons_append, List.append_assoc] at hu ⊢
    rw [← Bool.not_eq_true, unsafeOsc_eq] at hu ⊢
    have hpre {p : List UInt8} (hn : ESC ∉ p) (h : p <+: rest ++ ([b] ++ [7])) : p <+: rest := by
      rcases List.prefix_or_prefix_of_prefix h (List.prefix_append rest _) with h | h
      · exact h
      · exact absurd (h.subset hesc) hn
    rintro (h | h)
    · exact hu (.inl (hpre (by decide) h))
    · exact hu (.inr (hpre (by decide) h))
  have hsecond : step { f with pending := f.pending ++ [b], state := .osc } 7 =
      (({ f with pending := f.pending ++ [b] ++ [7], state := .osc } : VtFence).reset,
        f.pending ++ [b] ++ [7]) := by
    apply step_release (g := { f with pending := f.pending ++ [b] ++ [7], state := .osc })
    · have hlt : (f.pending ++ [b]).length < 16 * 1024 := by
        rw [List.length_append, List.length_singleton]
        omega
      simp only [Loop.pushByte, Loop.pushOsc]
      rw [push_short hlt]
      rfl
    · exact hd
    · exact hend
    · simp only [hp, List.cons_append, ne_eq, reduceCtorEq, not_false_eq_true]
  rw [Mealy.run_cons, Mealy.run_cons, Mealy.run_nil, hfirst, hsecond]
  simp only [List.append_nil, List.nil_append]
  refine hleak.mono ?_
  rw [hp]
  exact ⟨[ESC], [7], by simp only [List.cons_append, List.nil_append, List.append_assoc]⟩

theorem Exposes.leaks (h : Contained f) (he : Exposes f b) :
    ∃ more, Leaks (Mealy.run step f (b :: more)).2 := by
  cases hs : f.state with
  | esc => exact ⟨_, esc_leaks h hs he⟩
  | csi => exact ⟨_, csi_leaks h hs he⟩
  | osc => exact ⟨_, osc_leaks h (.inl hs) he⟩
  | oscEsc => exact ⟨_, osc_leaks h (.inr hs) he⟩
  | ground | string | stringEsc =>
    unfold Exposes at he
    rw [hs] at he
    exact he.2.elim

/-- The fence lets no dangerous control string through, however the input is cut, as long as no
byte of it exposes; the first byte that does can be continued so that one comes out. -/
theorem fence_blocks (input : List UInt8) (h : Unexposed default input) :
    (∀ chunks : List (List UInt8), chunks.flatten = input →
      ¬ Leaks (default.pushChunks chunks).2) ∧
    ∀ b, Exposes (default.pushBytes input).1 b →
      ∃ more, Leaks (default.pushBytes (input ++ b :: more)).2.flatten := by
  constructor
  · intro chunks hc
    rw [pushChunks_run, hc]
    exact (contained_default.run h).2.not_occurs
  · intro b he
    obtain ⟨hf, _⟩ := default.pushBytes_run input
    rw [hf] at he
    obtain ⟨more, hl⟩ := he.leaks (contained_default.run h).1
    refine ⟨more, ?_⟩
    obtain ⟨_, hout⟩ := default.pushBytes_run (input ++ b :: more)
    rw [hout, Mealy.run_append]
    exact hl.mono (List.suffix_append _ _).isInfix

/-- A colour sequence cut in two, and text that an introducer could start with. -/
theorem fence_blocks_colour :
    ¬ Leaks (default.pushChunks [[0x41, ESC, 0x5b], [0x33, 0x31, 0x6d, 0x58]]).2 :=
  (fence_blocks [0x41, ESC, 0x5b, 0x33, 0x31, 0x6d, 0x58]
    ⟨fun h => h.2, fun h => h.2, fun h => absurd h.2.1 (by decide),
      fun h => absurd h.2.1 (by decide), fun h => absurd h.2.1 (by decide),
      fun h => absurd h.2.1 (by decide), fun h => h.2, trivial⟩).1
    [[0x41, ESC, 0x5b], [0x33, 0x31, 0x6d, 0x58]] rfl

/-- `ESC ESC P`: the fence takes the first two bytes for a complete sequence. -/
theorem fence_leaks : Leaks (default.pushChunks [[ESC, ESC, 0x50]]).2 := by decide

end VtFence
end RemoteCodex
