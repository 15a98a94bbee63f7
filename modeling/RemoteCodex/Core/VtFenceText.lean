import RemoteCodex.Core.VtFence
import Mathlib.Data.List.Count

namespace RemoteCodex
set_option autoImplicit true
open Utf8
namespace VtFence

/-- One byte of text in the ground state: the sequence carried on and the bytes released. -/
def mend (carry : List UInt8) (b : UInt8) : List UInt8 × List UInt8 :=
  if carry.isEmpty then
    if 0xc2 ≤ b then ([b], []) else if 0x80 ≤ b then ([], replacement) else ([], [b])
  else
    match validate (carry ++ [b]) with
    | .ok => ([], carry ++ [b])
    | .incomplete => (carry ++ [b], [])
    | .invalid _ => ([], if b < 0x80 then replacement ++ [b] else replacement)

theorem pushByte_text {l : Loop} (hs : l.fence.state = .ground) (hb : b ≠ ESC) :
    l.pushByte b =
      ⟨{ l.fence with utf8 := (mend l.fence.utf8 b).1 }, l.out,
        l.text ++ (mend l.fence.utf8 b).2⟩ := by
  obtain ⟨⟨state, pending, utf8, discard, omitted⟩, out, text⟩ := l
  cases hs
  unfold Loop.pushByte Loop.pushGround mend
  simp only [if_neg hb]
  by_cases hnil : utf8.isEmpty = true
  · have hempty : utf8 = [] := List.isEmpty_iff.1 hnil
    subst hempty
    simp only [List.isEmpty_nil, ↓reduceIte]
    split
    · simp only [Loop.setUtf8, List.nil_append, List.append_nil]
    · split <;> rfl
  · simp only [if_neg hnil]
    cases validate (utf8 ++ [b]) with
    | ok => rfl
    | incomplete => simp only [Loop.setUtf8, List.append_nil]
    | invalid n =>
      simp only
      split
      · simp only [Loop.addText, Loop.setUtf8, List.append_assoc]
      · rfl

theorem step_text {f : VtFence} (hs : f.state = .ground) (hb : b ≠ ESC) :
    step f b = ({ f with utf8 := (mend f.utf8 b).1 }, (mend f.utf8 b).2) := by
  unfold step
  rw [pushByte_text hs hb]
  rfl

theorem run_text {f : VtFence} {bytes : List UInt8} (hs : f.state = .ground) (h : ESC ∉ bytes) :
    Mealy.run step f bytes =
      ({ f with utf8 := (Mealy.run mend f.utf8 bytes).1 }, (Mealy.run mend f.utf8 bytes).2) := by
  induction bytes generalizing f with
  | nil => rfl
  | cons b bytes ih =>
    have hb : b ≠ ESC := fun heq => h (heq ▸ List.mem_cons_self ..)
    have hrest : ESC ∉ bytes := fun hmem => h (List.mem_cons_of_mem _ hmem)
    have hrun := ih (f := { f with utf8 := (mend f.utf8 b).1 }) hs hrest
    rw [Mealy.run_cons, Mealy.run_cons, step_text hs hb, hrun]

/-- Everything released from here on, the sequence still carried at the end decoded. -/
def decoded (carry bytes : List UInt8) : List UInt8 :=
  (Mealy.run mend carry bytes).2 ++ lossy (Mealy.run mend carry bytes).1

theorem decoded_cons (carry : List UInt8) (b : UInt8) (bytes : List UInt8) :
    decoded carry (b :: bytes) = (mend carry b).2 ++ decoded (mend carry b).1 bytes := by
  simp only [decoded, Mealy.run_cons, List.append_assoc]

/-- A malformed piece that the fence carries until the next byte. -/
def swallows (p : List UInt8) : Bool := decide (validate p ≠ .ok ∧ 0xc2 ≤ p.headD 0)

/-- The first byte of the piece is lost to the piece before. -/
def loses (after : Bool) (p : List UInt8) : Bool := after && decide (0x80 ≤ p.headD 0)

/-- What the fence makes of the pieces of a text: one that loses its first byte is taken for
malformed bytes. -/
def mended (after : Bool) : List (List UInt8) → List (List UInt8)
  | [] => []
  | p :: ps =>
    if loses after p then List.replicate (p.length - 1) replacement ++ mended false ps
    else repaired p :: mended (swallows p) ps

/-- Between two scalars other than U+FFFD, the pieces that lose their first byte are two bytes
long on average, and no such scalar loses its own. -/
def balanced (after : Bool) (drift : Int) : List (List UInt8) → Bool
  | [] => drift = 0
  | p :: ps =>
    if loses after p then
      decide (repaired p = replacement) && balanced false (drift + p.length - 2) ps
    else if repaired p = replacement then balanced (swallows p) drift ps
    else decide (drift = 0) && balanced false 0 ps

theorem mended_low (h : b < 0x80) (after : Bool) (ps : List (List UInt8)) :
    mended after ([b] :: ps) = [b] :: mended false ps := by
  have hlow : ¬ (0x80 : UInt8) ≤ b := UInt8.not_le.2 h
  simp only [mended, loses, swallows, repaired, List.headD_cons, hlow, validate_low h, decide_false,
    Bool.and_false, Bool.false_eq_true, ↓reduceIte, ne_eq, not_true_eq_false, false_and]

theorem mend_low (h : b < 0x80) : mend [] b = ([], [b]) := by
  have hlead : ¬ (0xc2 : UInt8) ≤ b := UInt8.not_le.2 (UInt8.lt_of_lt_of_le h (by decide))
  have hhigh : ¬ (0x80 : UInt8) ≤ b := UInt8.not_le.2 h
  simp only [mend, List.isEmpty_nil, ↓reduceIte, if_neg hlead, if_neg hhigh]

theorem mend_high (h : 0x80 ≤ b) (hb : b < 0xc2) : mend [] b = ([], replacement) := by
  simp only [mend, List.isEmpty_nil, ↓reduceIte, if_neg (UInt8.not_le.2 hb), if_pos h]

theorem mend_lead (h : 0xc2 ≤ b) : mend [] b = ([b], []) := by
  simp only [mend, List.isEmpty_nil, ↓reduceIte, if_pos h]

theorem mend_carry (hu : u ≠ []) (b : UInt8) :
    mend u b = match validate (u ++ [b]) with
      | .ok => ([], u ++ [b])
      | .incomplete => (u ++ [b], [])
      | .invalid _ => ([], if b < 0x80 then replacement ++ [b] else replacement) := by
  cases u with
  | nil => exact absurd rfl hu
  | cons a u => rfl

/-- What the fence decodes from each state, in the pieces of the text. -/
structure Decodes (bytes : List UInt8) : Prop where
  fresh : decoded [] bytes = (mended false (piecesFrom [] bytes)).flatten
  carried : ∀ u, Carry u → validate u = .incomplete →
    decoded u bytes = (mended false (piecesFrom u bytes)).flatten
  /-- The first byte is one that starts no sequence. -/
  stray : ∀ a, 0xf5 ≤ a →
    decoded [a] bytes = replacement ++ (mended true (piecesFrom [] bytes)).flatten
  /-- The first byte of `u` is lost. -/
  lost : ∀ u, Carry u → validate u = .incomplete →
    (mended true (piecesFrom u bytes)).flatten =
      (List.replicate (u.length - 1) replacement).flatten ++ decoded [] bytes

namespace Decodes

theorem loses_append (h : Carry u) (v : List UInt8) : loses true (u ++ v) = true := by
  have hlead {a : UInt8} (ha : 0xc2 ≤ a) : decide (0x80 ≤ a) = true :=
    decide_eq_true (UInt8.le_trans (by decide) ha)
  cases h with
  | lead a ha | two a b ha | three a b c ha => exact hlead ha

theorem loses_of_carry (h : Carry u) : loses true u = true := by
  rw [← List.append_nil u]
  exact loses_append h []

theorem swallows_of_carry (h : Carry u) : swallows u = true := by
  have hne := h.ne_ok
  cases h with
  | lead a ha | two a b ha | three a b c ha => exact decide_eq_true ⟨hne, ha⟩

theorem lead_of_stray {a : UInt8} (h : 0xf5 ≤ a) : 0xc2 ≤ a := UInt8.le_trans (by decide) h

theorem width_stray (h : 0xf5 ≤ a) : width a = 0 := by
  apply width_none (UInt8.le_trans (by decide) h)
  rintro ⟨-, hle⟩
  have hlt : (0xf4 : UInt8) < 0xf5 := by decide
  exact absurd (UInt8.lt_of_lt_of_le hlt h) (UInt8.not_lt.2 hle)

theorem mended_piece (p : List UInt8) (ps : List (List UInt8)) :
    mended false (p :: ps) = repaired p :: mended (swallows p) ps := rfl

theorem mended_lost (h : loses true p = true) (ps : List (List UInt8)) :
    mended true (p :: ps) = List.replicate (p.length - 1) replacement ++ mended false ps := by
  simp only [mended, h, ↓reduceIte]

theorem nil : Decodes [] where
  fresh := rfl
  carried := by
    intro u hc hu
    have hpieces : piecesFrom u [] = [u] := if_neg (by
      rw [List.isEmpty_iff]
      exact hc.ne_nil)
    rw [hpieces, mended_piece]
    simp only [decoded, Mealy.run_nil, lossy, hc.pieces hu, List.flatMap_cons, List.flatMap_nil,
      List.nil_append, mended, List.flatten_cons, List.flatten_nil]
  stray := by
    intro a ha
    have hpieces : pieces [a] = [[a]] := by
      have hinv := validate_none (width_stray ha) []
      rw [pieces, piecesFrom_nil, hinv, if_neg Result.noConfusion]
      rfl
    simp only [decoded, Mealy.run_nil, lossy, hpieces, List.flatMap_cons, List.flatMap_nil,
      repaired_eq (Carry.lead a (lead_of_stray ha)).ne_ok, List.nil_append]
    rfl
  lost := by
    intro u hc hu
    have hpieces : piecesFrom u [] = [u] := if_neg (by
      rw [List.isEmpty_iff]
      exact hc.ne_nil)
    rw [hpieces, mended_lost (loses_of_carry hc)]
    simp only [mended, List.append_nil]
    exact (List.append_nil _).symm

/-- The byte after a malformed piece. -/
theorem after (h : Decodes bytes) (b : UInt8) :
    (mended true (piecesFrom [] (b :: bytes))).flatten =
      (if b < 0x80 then [b] else []) ++ decoded [] bytes := by
  rw [piecesFrom_nil]
  by_cases hlow : b < 0x80
  · have hne : validate [b] ≠ .incomplete := by
      rw [validate_low hlow]
      exact Result.noConfusion
    rw [if_pos hlow, if_neg hne, mended_low hlow, List.flatten_cons, ← h.fresh]
  · have hhigh : 0x80 ≤ b := UInt8.not_lt.1 hlow
    rw [if_neg hlow, List.nil_append]
    split
    · next hinc => exact h.lost [b] (.lead b (validate_lead.1 hinc).1) hinc
    · have hloses : loses true [b] = true := decide_eq_true hhigh
      rw [mended_lost hloses, h.fresh]
      rfl

theorem fresh_cons (h : Decodes bytes) (b : UInt8) :
    decoded [] (b :: bytes) = (mended false (piecesFrom [] (b :: bytes))).flatten := by
  rw [piecesFrom_nil, decoded_cons]
  by_cases hlow : b < 0x80
  · have hne : validate [b] ≠ .incomplete := by
      rw [validate_low hlow]
      exact Result.noConfusion
    rw [mend_low hlow, if_neg hne, mended_low hlow, List.flatten_cons, h.fresh]
  · have hhigh : 0x80 ≤ b := UInt8.not_lt.1 hlow
    by_cases hlead : 0xc2 ≤ b
    · rw [mend_lead hlead, List.nil_append]
      split
      · next hinc => exact h.carried [b] (.lead b hlead) hinc
      · next hninc =>
        have hstray : 0xf5 ≤ b := by
          have hnle : ¬ b ≤ 0xf4 := fun hle => hninc (validate_lead.2 ⟨hlead, hle⟩)
          simp only [UInt8.le_iff_toNat_le, UInt8.reduceToNat] at hnle ⊢
          omega
        have hcarry := Carry.lead b hlead
        rw [h.stray b hstray, mended_piece, repaired_eq hcarry.ne_ok, swallows_of_carry hcarry,
          List.flatten_cons]
    · have hinv := validate_none (width_none hhigh fun hc => hlead hc.1) []
      have hne : validate [b] ≠ .incomplete := by
        rw [hinv]
        exact Result.noConfusion
      have hno : validate [b] ≠ .ok := by
        rw [hinv]
        exact Result.noConfusion
      have hswallows : swallows [b] = false := decide_eq_false fun hc => hlead hc.2
      rw [mend_high hhigh (UInt8.not_le.1 hlead), if_neg hne, mended_piece, repaired_eq hno,
        hswallows, List.flatten_cons, h.fresh]

theorem carried_cons (h : Decodes bytes) (b : UInt8) (hc : Carry u) :
    decoded u (b :: bytes) = (mended false (piecesFrom u (b :: bytes))).flatten := by
  rw [decoded_cons, mend_carry hc.ne_nil, piecesFrom_cons hc]
  rcases hc.snoc b with ⟨hok, -⟩ | ⟨hmore, hcarry⟩ | ⟨n, hinv⟩
  · have hswallows : swallows (u ++ [b]) = false := decide_eq_false fun hs => hs.1 hok
    rw [hok]
    simp only
    rw [mended_piece, (hc.scalar hok).repaired, hswallows, List.flatten_cons, h.fresh]
  · rw [hmore]
    exact h.carried _ hcarry hmore
  · rw [hinv]
    simp only
    rw [mended_piece, repaired_eq hc.ne_ok, swallows_of_carry hc, List.flatten_cons, h.after]
    split
    · rw [List.append_assoc]
    · rfl

theorem stray_cons (h : Decodes bytes) (b : UInt8) (ha : 0xf5 ≤ a) :
    decoded [a] (b :: bytes) =
      replacement ++ (mended true (piecesFrom [] (b :: bytes))).flatten := by
  have hinv : validate ([a] ++ [b]) = .invalid 1 := validate_none (width_stray ha) [b]
  rw [decoded_cons, mend_carry (List.cons_ne_nil _ _), hinv, h.after]
  simp only
  split
  · rw [List.append_assoc]
  · rfl

theorem lost_cons (h : Decodes bytes) (b : UInt8) (hc : Carry u) :
    (mended true (piecesFrom u (b :: bytes))).flatten =
      (List.replicate (u.length - 1) replacement).flatten ++ decoded [] (b :: bytes) := by
  have hloses := loses_of_carry hc
  have hfirst (hb : cont b = true) : (List.replicate u.length replacement).flatten =
      (List.replicate (u.length - 1) replacement).flatten ++ (mend [] b).2 ∧
        (mend [] b).1 = [] := by
    simp only [cont, Bool.and_eq_true, decide_eq_true_eq] at hb
    have hlt : b < 0xc2 := UInt8.lt_of_le_of_lt hb.2 (by decide)
    have hlen : u.length = u.length - 1 + 1 := by
      have hpos := List.length_pos_iff.2 hc.ne_nil
      omega
    rw [mend_high hb.1 hlt, hlen, List.replicate_succ']
    simp only [Nat.add_sub_cancel, List.flatten_append, List.flatten_singleton, and_self]
  rw [piecesFrom_cons hc]
  rcases hc.snoc b with ⟨hok, -⟩ | ⟨hmore, hcarry⟩ | ⟨n, hinv⟩
  · obtain ⟨hflat, hnil⟩ := hfirst (hc.next fun n => by rw [hok]; exact Result.noConfusion)
    have hloses' := loses_append hc [b]
    rw [hok]
    simp only
    rw [mended_lost hloses', decoded_cons, hnil, List.flatten_append, ← h.fresh, List.length_append,
      List.length_singleton, Nat.add_sub_cancel, hflat, List.append_assoc]
  · obtain ⟨hflat, hnil⟩ := hfirst (hc.next fun n => by rw [hmore]; exact Result.noConfusion)
    rw [hmore]
    simp only
    rw [h.lost _ hcarry hmore, decoded_cons, hnil, List.length_append, List.length_singleton,
      Nat.add_sub_cancel, hflat, List.append_assoc]
  · rw [hinv]
    simp only
    rw [mended_lost hloses, List.flatten_append, ← h.fresh_cons b]

theorem cons (h : Decodes bytes) (b : UInt8) : Decodes (b :: bytes) where
  fresh := h.fresh_cons b
  carried := fun _ hc _ => h.carried_cons b hc
  stray := fun _ => h.stray_cons b
  lost := fun _ hc _ => h.lost_cons b hc

theorem all (bytes : List UInt8) : Decodes bytes := by
  induction bytes with
  | nil => exact .nil
  | cons b bytes ih => exact ih.cons b

end Decodes

theorem replicate_cons_iff {r x : α} (hx : x ≠ r) :
    List.replicate i r ++ x :: xs = List.replicate j r ++ x :: ys ↔ i = j ∧ xs = ys := by
  induction i generalizing j with
  | zero =>
    cases j with
    | zero => simp only [List.replicate_zero, List.nil_append, List.cons.injEq, true_and]
    | succ j =>
      simp only [List.replicate_zero, List.nil_append, List.replicate_succ, List.cons_append,
        List.cons.injEq, hx, false_and, reduceCtorEq]
  | succ i ih =>
    cases j with
    | zero =>
      simp only [List.replicate_zero, List.nil_append, List.replicate_succ, List.cons_append,
        List.cons.injEq, hx.symm, false_and, reduceCtorEq]
    | succ j =>
      simp only [List.replicate_succ, List.cons_append, List.cons.injEq, true_and, ih,
        Nat.add_right_cancel_iff]

/-- The scalars other than U+FFFD. -/
def kept (ps : List (List UInt8)) : Nat := ps.countP fun p => decide (p ≠ replacement)

theorem kept_replicate (n : Nat) : kept (List.replicate n replacement) = 0 := by
  unfold kept
  rw [List.countP_eq_zero]
  intro p hp
  rw [List.eq_of_mem_replicate hp]
  decide

/-- The fence makes up no scalars. -/
theorem kept_mended (after : Bool) (ps : List (List UInt8)) :
    kept (mended after ps) ≤ kept (ps.map repaired) := by
  induction ps generalizing after with
  | nil => exact Nat.le_refl _
  | cons p ps ih =>
    have hcons (q : List UInt8) (qs : List (List UInt8)) : kept qs ≤ kept (q :: qs) := by
      unfold kept
      rw [List.countP_cons]
      exact Nat.le_add_right ..
    unfold mended
    split
    · have happ : kept (List.replicate (p.length - 1) replacement ++ mended false ps) =
          kept (mended false ps) := by
        have hzero := kept_replicate (p.length - 1)
        unfold kept at hzero ⊢
        rw [List.countP_append, hzero, Nat.zero_add]
      rw [happ]
      exact Nat.le_trans (ih false) (hcons _ _)
    · unfold kept at ih ⊢
      rw [List.map_cons, List.countP_cons, List.countP_cons]
      exact Nat.add_le_add_right (ih _) _

/-- The fence decodes a text as it should exactly when the lost bytes balance out. -/
theorem mended_iff (hne : ∀ p ∈ ps, p ≠ []) (after : Bool) (i j : Nat) :
    List.replicate i replacement ++ mended after ps =
        List.replicate j replacement ++ ps.map repaired ↔
      balanced after (i - j) ps = true := by
  induction ps generalizing after i j with
  | nil =>
    simp only [mended, List.map_nil, List.append_nil, balanced, decide_eq_true_eq]
    rw [Int.sub_eq_zero, Int.ofNat_inj]
    constructor
    · intro h
      have hlen := congrArg List.length h
      rw [List.length_replicate, List.length_replicate] at hlen
      exact hlen
    · intro h
      rw [h]
  | cons p ps ih =>
    have hps : ∀ q ∈ ps, q ≠ [] := fun q hq => hne q (List.mem_cons_of_mem _ hq)
    have hpos : 0 < p.length := List.length_pos_iff.2 (hne p (List.mem_cons_self ..))
    have hmore (n : Nat) (qs : List (List UInt8)) :
        List.replicate n replacement ++ replacement :: qs =
          List.replicate (n + 1) replacement ++ qs := by
      rw [List.replicate_succ', List.append_assoc]
      rfl
    unfold mended balanced
    rw [List.map_cons]
    split
    · by_cases hr : repaired p = replacement
      · have hdrift : (i : Int) - j + p.length - 2 = ((i + (p.length - 1) : Nat) : Int) -
            ((j + 1 : Nat) : Int) := by omega
        rw [hr, hmore, ← List.append_assoc, ← List.replicate_add, ih hps, hdrift]
        simp only [decide_true, Bool.true_and]
      · simp only [hr, decide_false, Bool.false_and, Bool.false_eq_true, iff_false]
        intro heq
        have hk := congrArg kept heq
        have hle := kept_mended false ps
        have hzero (n : Nat) := kept_replicate n
        unfold kept at hk hle hzero
        simp only [List.countP_append, hzero, List.countP_cons, ne_eq, hr, not_false_eq_true,
          decide_true, ↓reduceIte] at hk hle
        omega
    · split
      · next hr =>
        have hdrift : ((i + 1 : Nat) : Int) - ((j + 1 : Nat) : Int) = i - j := by omega
        rw [hr, hmore, hmore, ih hps, hdrift]
      · next hr =>
        have hok : validate p = .ok :=
          Classical.byContradiction fun hno => hr (repaired_eq hno)
        have hswallows : swallows p = false := decide_eq_false fun hs => hs.1 hok
        have hrest := ih hps false 0 0
        rw [replicate_cons_iff hr, hswallows]
        simp only [List.replicate_zero, List.nil_append, Int.sub_self] at hrest
        rw [hrest, Bool.and_eq_true, decide_eq_true_eq, Int.sub_eq_zero, Int.ofNat_inj]

theorem mended_scalar {ps : List (List UInt8)} (h : ∀ p ∈ ps, Scalar (repaired p)) (after : Bool) :
    ∀ p ∈ mended after ps, Scalar p := by
  induction ps generalizing after with
  | nil => exact fun p hp => (List.not_mem_nil hp).elim
  | cons p ps ih =>
    have hps : ∀ q ∈ ps, Scalar (repaired q) := fun q hq => h q (List.mem_cons_of_mem _ hq)
    intro q hq
    unfold mended at hq
    split at hq
    · rcases List.mem_append.1 hq with hq | hq
      · rw [List.eq_of_mem_replicate hq]
        exact scalar_replacement
      · exact ih hps _ q hq
    · rcases List.mem_cons.1 hq with rfl | hq
      · exact h p (List.mem_cons_self ..)
      · exact ih hps _ q hq

/-- What the fence has released and still carries is the lossy decoding of the text exactly when
the lost bytes balance out. -/
theorem lossy_iff (chunks : List (List UInt8)) (h : ESC ∉ chunks.flatten) :
    (default.pushChunks chunks).2 ++ lossy (default.pushChunks chunks).1.utf8 =
        lossy chunks.flatten ↔
      balanced false 0 (pieces chunks.flatten) = true := by
  rw [pushChunks_run]
  generalize chunks.flatten = bytes at h ⊢
  have hdecoded : (Mealy.run step default bytes).2 ++ lossy (Mealy.run step default bytes).1.utf8 =
      decoded [] bytes := by
    rw [run_text rfl h]
    rfl
  have hscalars : ∀ p ∈ pieces bytes, Scalar (repaired p) := repaired_scalar (.inl rfl)
  have hne : ∀ p ∈ pieces bytes, p ≠ [] := by
    intro p hp hnil
    have hs := hscalars p hp
    rw [hnil] at hs
    exact hs.nonempty rfl
  have hmap : ∀ p ∈ (pieces bytes).map repaired, Scalar p := by
    intro p hp
    obtain ⟨q, hq, rfl⟩ := List.mem_map.1 hp
    exact hscalars q hq
  rw [hdecoded, (Decodes.all bytes).fresh]
  have hiff := mended_iff hne false 0 0
  simp only [List.replicate_zero, List.nil_append, Int.sub_self] at hiff
  rw [← hiff, lossy, List.flatMap_def]
  constructor
  · exact scalars_unique (mended_scalar hscalars false) hmap
  · intro heq
    exact congrArg List.flatten heq

/-- A malformed byte before Korean text, with nothing lost, in two chunks. -/
theorem lossy_iff_korean :
    (default.pushChunks [[0x80, 0xED], [0x95, 0x9C]]).2 ++
        lossy (default.pushChunks [[0x80, 0xED], [0x95, 0x9C]]).1.utf8 =
      lossy [0x80, 0xED, 0x95, 0x9C] :=
  (lossy_iff [[0x80, 0xED], [0x95, 0x9C]] (by decide)).2 (by decide)

/-- An incomplete sequence destroys the scalar after it. -/
theorem lossy_differs : ¬ ∀ chunks : List (List UInt8), ESC ∉ chunks.flatten →
    (default.pushChunks chunks).2 ++ lossy (default.pushChunks chunks).1.utf8 =
      lossy chunks.flatten := by
  intro h
  exact absurd (h [[0xE2, 0xC3, 0xA9]] (by decide)) (by decide)

end VtFence
end RemoteCodex
