import RemoteCodex.Core.VtFenceSequences
import Mathlib.Data.List.TakeWhile

namespace RemoteCodex
set_option autoImplicit true
open Utf8
namespace VtFence

/-- A byte that may stand between `ESC [` and the final byte of a control sequence. -/
def CsiBody (b : UInt8) : Prop :=
  b < 0x80 ∧ ¬ (0x40 ≤ b ∧ b ≤ 0x7e) ∧ b ≠ ESC ∧ b ≠ 0x18 ∧ b ≠ 0x1a

/-- What a normal program writes to its terminal. -/
inductive Legitimate : List UInt8 → Prop where
  | nil : Legitimate []
  | scalar (p rest : List UInt8) (h : Scalar p) (hp : p ≠ [ESC]) (hr : Legitimate rest) :
      Legitimate (p ++ rest)
  | csi (body rest : List UInt8) (final : UInt8) (hb : ∀ b ∈ body, CsiBody b)
      (hl : ([ESC, 0x5b] ++ body).length ≤ 1024) (hf : 0x40 ≤ final ∧ final ≤ 0x7e)
      (hr : Legitimate rest) : Legitimate (ESC :: 0x5b :: (body ++ [final]) ++ rest)
  | osc (body ending rest : List UInt8) (hu : validate body = .ok)
      (hb : ∀ b ∈ body, b ≠ 7 ∧ b ≠ ESC)
      (hs : ¬ [0x35, 0x32, 0x3b] <+: body ∧ ¬ [0x38, 0x3b] <+: body)
      (he : ending = [7] ∨ ending = [ESC, 0x5c])
      (hl : (ESC :: 0x5d :: (body ++ ending)).length ≤ 16 * 1024)
      (hr : Legitimate rest) : Legitimate (ESC :: 0x5d :: (body ++ ending) ++ rest)
  | escape (inter rest : List UInt8) (final : UInt8) (hi : ∀ b ∈ inter, 0x20 ≤ b ∧ b ≤ 0x2f)
      (hf : 0x30 ≤ final ∧ final ≤ 0x7e)
      (hne : final ∉ [0x5b, 0x5d, 0x50, 0x58, 0x5e, 0x5f])
      (hl : (ESC :: (inter ++ [final])).length ≤ 16 * 1024) (hr : Legitimate rest) :
      Legitimate (ESC :: (inter ++ [final]) ++ rest)

/-- A well-formed scalar goes through unchanged. -/
theorem mend_scalar (h : Scalar p) : Mealy.run mend [] p = ([], p) := by
  have hok := h.valid
  have hfirst {a : UInt8} (hw : 2 ≤ width a) : mend [] a = ([a], []) :=
    mend_lead (lead_of_width hw)
  cases h.shape with
  | one a hw =>
    rw [Mealy.run_cons, mend_low (low_of_width hw)]
    rfl
  | two a b hw hb =>
    have hb : mend [a] b = ([], [a, b]) := by
      rw [mend_carry (List.cons_ne_nil _ _), List.singleton_append, hok]
    rw [Mealy.run_cons, hfirst (by omega), Mealy.run_cons, hb]
    rfl
  | three a b c hw hb hc =>
    have hab : validate [a, b] = .incomplete := by simp only [validate, hw, hb, ↓reduceIte]
    have hb : mend [a] b = ([a, b], []) := by
      rw [mend_carry (List.cons_ne_nil _ _), List.singleton_append, hab]
    have hc : mend [a, b] c = ([], [a, b, c]) := by
      rw [mend_carry (List.cons_ne_nil _ _), List.cons_append, List.singleton_append, hok]
    rw [Mealy.run_cons, hfirst (by omega), Mealy.run_cons, hb, Mealy.run_cons, hc]
    rfl
  | four a b c d hw hb hc hd =>
    have hab : validate [a, b] = .incomplete := by simp only [validate, hw, hb, ↓reduceIte]
    have habc : validate [a, b, c] = .incomplete := by
      simp only [validate, hw, hb, hc, ↓reduceIte]
    have hb : mend [a] b = ([a, b], []) := by
      rw [mend_carry (List.cons_ne_nil _ _), List.singleton_append, hab]
    have hc : mend [a, b] c = ([a, b, c], []) := by
      rw [mend_carry (List.cons_ne_nil _ _), List.cons_append, List.singleton_append, habc]
    have hd : mend [a, b, c] d = ([], [a, b, c, d]) := by
      rw [mend_carry (List.cons_ne_nil _ _), List.cons_append, List.cons_append,
        List.singleton_append, hok]
    rw [Mealy.run_cons, hfirst (by omega), Mealy.run_cons, hb, Mealy.run_cons, hc, Mealy.run_cons,
      hd]
    rfl

/-- The bytes complete a sequence, and the last of them does. -/
inductive Completes : State → List UInt8 → Prop where
  | last (b : UInt8) (h : s.next b = .ground) : Completes s [b]
  | more (b : UInt8) (bytes : List UInt8) (hn : s.next b ≠ .ground)
      (h : Completes (s.next b) bytes) : Completes s (b :: bytes)

/-- An open sequence that is completed and not left out is released as it is. -/
theorem Holds.completes (h : Holds f held) (hs : s = f.state) (hc : Completes s bytes)
    (ho : omits (held ++ bytes) = false) :
    Mealy.run step f bytes = (⟨.ground, [], [], false, f.omitted⟩, held ++ bytes) := by
  induction hc generalizing f held with
  | last b hn =>
    subst hs
    have hstep : step f b = (⟨.ground, [], [], false, f.omitted⟩, held ++ [b]) := by
      have hout := Holds.pushByte (l := ⟨f, [], []⟩) h b
      unfold step
      generalize Loop.pushByte ⟨f, [], []⟩ b = l' at hout ⊢
      cases hout with
      | holds f' hf hst ho' => exact absurd (hst.trans hn) hf.state_ne
      | omitted hn' ho' =>
        rw [ho] at ho'
        cases ho'
      | released hn' ho' =>
        simp only [Loop.released, List.nil_append, List.flatten_singleton, List.append_nil]
    rw [Mealy.run_cons, Mealy.run_nil, hstep, List.append_nil]
  | more b bytes hn hc ih =>
    subst hs
    obtain ⟨f', hf, hst, ho', hstep⟩ : ∃ f', Holds f' (held ++ [b]) ∧
        f'.state = f.state.next b ∧ f'.omitted = f.omitted ∧ step f b = (f', []) := by
      have hout := Holds.pushByte (l := ⟨f, [], []⟩) h b
      unfold step
      generalize Loop.pushByte ⟨f, [], []⟩ b = l' at hout ⊢
      cases hout with
      | holds f' hf hst ho' => exact ⟨f', hf, hst, ho', rfl⟩
      | omitted hn' ho' => exact absurd hn' hn
      | released hn' ho' => exact absurd hn' hn
    have hrun := ih hf hst.symm (by rw [List.append_assoc]; exact ho)
    rw [Mealy.run_cons, hstep, hrun, ho', List.append_assoc]
    rfl

/-- The fence between two sequences, with a count of those left out so far. -/
def idle (n : Nat) : VtFence := { default with omitted := n }

theorem run_sequence (n : Nat) (hc : Completes .esc bytes) (ho : omits (ESC :: bytes) = false) :
    Mealy.run step (idle n) (ESC :: bytes) = (idle n, ESC :: bytes) := by
  have hholds : Holds ⟨.esc, [ESC], [], false, n⟩ [ESC] :=
    ⟨rfl, List.cons_ne_nil _ _, rfl, rfl, rfl⟩
  have hfirst : step (idle n) ESC = (⟨.esc, [ESC], [], false, n⟩, []) := by
    unfold step
    rw [pushByte_escape rfl (.inl rfl)]
    rfl
  rw [Mealy.run_cons, hfirst, hholds.completes rfl hc ho]
  rfl

theorem run_scalar (n : Nat) (h : Scalar p) (hp : p ≠ [ESC]) :
    Mealy.run step (idle n) p = (idle n, p) := by
  have hesc : ESC ∉ p := by
    intro hmem
    rcases h.shape.high with ⟨a, rfl, -⟩ | hhigh
    · rw [List.mem_singleton.1 hmem] at hp
      exact hp rfl
    · exact absurd (hhigh ESC hmem) (by decide)
  have hmend : Mealy.run mend (idle n).utf8 p = ([], p) := mend_scalar h
  rw [run_text rfl hesc, hmend]
  rfl

theorem completes_csi (hb : ∀ b ∈ body, CsiBody b) (hf : 0x40 ≤ final ∧ final ≤ 0x7e) :
    Completes .csi (body ++ [final]) := by
  induction body with
  | nil => exact .last final (if_pos hf)
  | cons b body ih =>
    obtain ⟨-, hfinal, -, h₁, h₂⟩ := hb b (List.mem_cons_self ..)
    have hn : State.csi.next b = .csi := by
      have hcancel : ¬ (b = 0x18 ∨ b = 0x1a) := fun h => h.elim h₁ h₂
      simp only [State.next, if_neg hfinal, if_neg hcancel]
    apply Completes.more b _
    · rw [hn]
      exact State.noConfusion
    · rw [hn]
      exact ih fun c hc => hb c (List.mem_cons_of_mem _ hc)

theorem completes_osc (hb : ∀ b ∈ body, b ≠ 7 ∧ b ≠ ESC)
    (he : ending = [7] ∨ ending = [ESC, 0x5c]) : Completes .osc (body ++ ending) := by
  induction body with
  | nil =>
    rcases he with rfl | rfl
    · exact .last 7 rfl
    · exact .more ESC _ State.noConfusion (.last 0x5c rfl)
  | cons b body ih =>
    obtain ⟨h₁, h₂⟩ := hb b (List.mem_cons_self ..)
    have hn : State.osc.next b = .osc := by simp only [State.next, if_neg h₁, if_neg h₂]
    apply Completes.more b _
    · rw [hn]
      exact State.noConfusion
    · rw [hn]
      exact ih fun c hc => hb c (List.mem_cons_of_mem _ hc)

theorem completes_escape (hi : ∀ b ∈ inter, 0x20 ≤ b ∧ b ≤ 0x2f)
    (hf : (0x30 : UInt8) ≤ final) (hne : final ∉ [0x5b, 0x5d, 0x50, 0x58, 0x5e, 0x5f]) :
    Completes .esc (inter ++ [final]) := by
  induction inter with
  | nil =>
    simp only [List.mem_cons, List.not_mem_nil, or_false, not_or] at hne
    obtain ⟨h₁, h₂, h₃, h₄, h₅, h₆⟩ := hne
    have hstring : ¬ (final = 0x50 ∨ final = 0x5f ∨ final = 0x5e ∨ final = 0x58) := by
      rintro (h | h | h | h)
      · exact h₃ h
      · exact h₆ h
      · exact h₅ h
      · exact h₄ h
    have hinter : ¬ (0x20 ≤ final ∧ final ≤ 0x2f) := by
      rintro ⟨-, h⟩
      exact absurd (UInt8.le_trans hf h) (by decide)
    apply Completes.last final
    simp only [State.next, if_neg h₁, if_neg h₂, if_neg hstring, if_neg hinter]
  | cons b inter ih =>
    have hb := hi b (List.mem_cons_self ..)
    have hn : State.esc.next b = .esc := by
      have h₁ : b ≠ 0x5b := by
        rintro rfl
        exact absurd hb.2 (by decide)
      have h₂ : b ≠ 0x5d := by
        rintro rfl
        exact absurd hb.2 (by decide)
      have hstring : ¬ (b = 0x50 ∨ b = 0x5f ∨ b = 0x5e ∨ b = 0x58) := by
        rintro (rfl | rfl | rfl | rfl) <;> exact absurd hb.2 (by decide)
      simp only [State.next, if_neg h₁, if_neg h₂, if_neg hstring, if_pos hb]
    apply Completes.more b _
    · rw [hn]
      exact State.noConfusion
    · rw [hn]
      exact ih fun c hc => hi c (List.mem_cons_of_mem _ hc)

theorem omits_eq_false (hl : seq.length ≤ 16 * 1024) (hu : unsafeOsc seq = false)
    (hr : refused seq = false) : omits seq = false := by
  simp only [omits, hu, hr, decide_eq_false (Nat.not_lt.2 hl), Bool.or_self]

theorem omits_csi (hl : ([ESC, 0x5b] ++ body).length ≤ 1024) (hf : 0x40 ≤ final ∧ final ≤ 0x7e) :
    omits (ESC :: 0x5b :: (body ++ [final])) = false := by
  have hlen : body.length + 2 ≤ 1024 := by
    rw [List.length_append] at hl
    exact Nat.add_comm .. ▸ hl
  have hsel : selected (ESC :: 0x5b :: (body ++ [final])) = 0x5b :: (body ++ [final]) := rfl
  apply omits_eq_false
  · simp only [List.length_cons, List.length_append, List.length_nil]
    omega
  · rfl
  · have hshort : ¬ 1024 < (ESC :: 0x5b :: (body ++ [final])).length - 1 := by
      simp only [List.length_cons, List.length_append, List.length_nil]
      omega
    have h₁ : (final == 0x18) = false := by
      rw [beq_eq_false_iff_ne]
      rintro rfl
      exact absurd hf.1 (by decide)
    have h₂ : (final == 0x1a) = false := by
      rw [beq_eq_false_iff_ne]
      rintro rfl
      exact absurd hf.1 (by decide)
    have hlast : (body ++ [final]).getLast? = some final := by
      rw [List.getLast?_append, List.getLast?_singleton, Option.some_or]
    unfold refused
    rw [hsel]
    simp only [↓reduceIte, decide_eq_false hshort, Bool.and_false, hlast,
      Option.some_beq_some, h₁, h₂, Bool.or_self]

theorem omits_osc (hs : ¬ [0x35, 0x32, 0x3b] <+: body ∧ ¬ [0x38, 0x3b] <+: body)
    (he : ending = [7] ∨ ending = [ESC, 0x5c])
    (hl : (ESC :: 0x5d :: (body ++ ending)).length ≤ 16 * 1024) :
    omits (ESC :: 0x5d :: (body ++ ending)) = false := by
  -- a prefix of the body and its ending that is neither BEL nor ESC is one of the body
  have hpre {p : List UInt8} (h₇ : (7 : UInt8) ∉ p) (hesc : ESC ∉ p) (h : p <+: body ++ ending) :
      p <+: body := by
    rcases List.prefix_or_prefix_of_prefix h (List.prefix_append body ending) with hp | hp
    · exact hp
    · obtain ⟨more, rfl⟩ := hp
      rw [List.prefix_append_right_inj] at h
      cases more with
      | nil =>
        rw [List.append_nil]
      | cons c more =>
        rcases he with rfl | rfl
        · cases (List.cons_prefix_cons.1 h).1
          exact absurd (List.mem_append_right _ (List.mem_cons_self ..)) h₇
        · cases (List.cons_prefix_cons.1 h).1
          exact absurd (List.mem_append_right _ (List.mem_cons_self ..)) hesc
  apply omits_eq_false hl
  · rw [← Bool.not_eq_true, unsafeOsc_eq]
    rintro (h | h)
    · exact hs.1 (hpre (by decide) (by decide) (List.cons_prefix_cons.1 h).2)
    · exact hs.2 (hpre (by decide) (by decide) (List.cons_prefix_cons.1 h).2)
  · rfl

theorem omits_escape (hi : ∀ b ∈ inter, 0x20 ≤ b ∧ b ≤ 0x2f) (hf : (0x30 : UInt8) ≤ final)
    (hne : final ∉ [0x5b, 0x5d, 0x50, 0x58, 0x5e, 0x5f])
    (hl : (ESC :: (inter ++ [final])).length ≤ 16 * 1024) :
    omits (ESC :: (inter ++ [final])) = false := by
  simp only [List.mem_cons, List.not_mem_nil, or_false, not_or] at hne
  obtain ⟨h₁, h₂, h₃, h₄, h₅, h₆⟩ := hne
  apply omits_eq_false hl
  · exact Headed.safe_osc ⟨inter, [], rfl, hi⟩ h₂
  · have hfinal : intermediate final = false := by
      rw [← Bool.not_eq_true, intermediate, Bool.and_eq_true, decide_eq_true_eq,
        decide_eq_true_eq]
      rintro ⟨-, h⟩
      exact absurd (UInt8.le_trans hf h) (by decide)
    have hinter : inter.dropWhile intermediate = [] := by
      rw [List.dropWhile_eq_nil_iff]
      intro b hb
      simp only [intermediate, hi b hb, decide_true, Bool.and_self]
    have hsel : selected (ESC :: (inter ++ [final])) = [final] := by
      simp only [selected, List.drop_succ_cons, List.drop_zero, List.dropWhile_append, hinter,
        List.isEmpty_nil, ↓reduceIte, List.dropWhile_cons, hfinal, Bool.false_eq_true]
    unfold refused
    rw [hsel]
    simp only [if_neg h₁, beq_eq_false_iff_ne.2 h₃, beq_eq_false_iff_ne.2 h₄,
      beq_eq_false_iff_ne.2 h₅, beq_eq_false_iff_ne.2 h₆, Bool.or_self]

theorem Legitimate.run (h : Legitimate input) (n : Nat) :
    Mealy.run step (idle n) input = (idle n, input) := by
  have happend {a b : List UInt8} (ha : Mealy.run step (idle n) a = (idle n, a))
      (hb : Mealy.run step (idle n) b = (idle n, b)) :
      Mealy.run step (idle n) (a ++ b) = (idle n, a ++ b) := by
    rw [Mealy.run_append, ha, hb]
  induction h with
  | nil => rfl
  | scalar p rest h hp hr ih => exact happend (run_scalar n h hp) ih
  | csi body rest final hb hl hf hr ih =>
    apply happend _ ih
    apply run_sequence n _ (omits_csi hl hf)
    exact .more 0x5b _ State.noConfusion (completes_csi hb hf)
  | osc body ending rest hu hb hs he hl hr ih =>
    apply happend _ ih
    apply run_sequence n _ (omits_osc hs he hl)
    exact .more 0x5d _ State.noConfusion (completes_osc hb he)
  | escape inter rest final hi hf hne hl hr ih =>
    apply happend _ ih
    apply run_sequence n _ (omits_escape hi hf.1 hne hl)
    exact completes_escape hi hf.1 hne

/-- What a normal program writes goes through unchanged, however it is cut, and the fence is
idle again afterwards. -/
theorem transparent (n : Nat) (chunks : List (List UInt8)) (h : Legitimate chunks.flatten) :
    (idle n).pushChunks chunks = (idle n, chunks.flatten) := by
  rw [pushChunks_run]
  exact h.run n

/-- A colour, a title in Korean and a character set. -/
theorem transparent_colour :
    (idle 3).pushChunks [[ESC, 0x5b, 0x31], [0x6d, ESC, 0x5d, 0xED, 0x95], [0x9C, ESC],
        [0x5c, ESC, 0x28, 0x42]] =
      (idle 3,
        [ESC, 0x5b, 0x31, 0x6d, ESC, 0x5d, 0xED, 0x95, 0x9C, ESC, 0x5c, ESC, 0x28, 0x42]) := by
  apply transparent
  have hcharset : Legitimate [ESC, 0x28, 0x42] :=
    .escape [0x28] [] 0x42 (List.forall_mem_singleton.2 (by decide)) (by decide) (by decide)
      (by decide) .nil
  have htitle : Legitimate [ESC, 0x5d, 0xED, 0x95, 0x9C, ESC, 0x5c, ESC, 0x28, 0x42] := by
    apply Legitimate.osc [0xED, 0x95, 0x9C] [ESC, 0x5c] _ rfl _ (by decide) (.inr rfl) (by decide)
      hcharset
    exact List.forall_mem_cons.2 ⟨by decide, List.forall_mem_cons.2
      ⟨by decide, List.forall_mem_singleton.2 (by decide)⟩⟩
  exact .csi [0x31] _ 0x6d (List.forall_mem_singleton.2 (by unfold CsiBody; decide)) (by decide)
    (by decide) htitle

end VtFence
end RemoteCodex
