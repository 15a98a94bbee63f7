import RemoteCodex.Core.VtFence

namespace RemoteCodex
set_option autoImplicit true
namespace VtFence

/-- The representation invariant: text is carried in the ground state only, a sequence is held
back in the other states only, and neither grows beyond its bound. -/
structure Represented (f : VtFence) : Prop where
  ground : f.state = .ground → f.pending = [] ∧ f.discard = false
  other : f.state ≠ .ground → f.utf8 = [] ∧ ∃ rest, f.pending = ESC :: rest
  carry : f.utf8 = [] ∨ Utf8.Carry f.utf8
  bounded : f.pending.length ≤ 16 * 1024

theorem represented_default : Represented default where
  ground := fun _ => ⟨rfl, rfl⟩
  other := fun h => absurd rfl h
  carry := .inl rfl
  bounded := Nat.zero_le _

/-- A sequence that is held back, with one more byte. -/
structure Held (f : VtFence) : Prop where
  utf8 : f.utf8 = []
  starts : ∃ rest, f.pending = ESC :: rest
  bounded : f.pending.length ≤ 16 * 1024

theorem Represented.push (h : Represented f) (hs : f.state ≠ .ground) (b : UInt8) :
    Held (f.push b) := by
  obtain ⟨hu, rest, hp⟩ := h.other hs
  unfold VtFence.push
  split
  · next hlt =>
    refine ⟨hu, ⟨rest ++ [b], by simp only [hp, List.cons_append]⟩, ?_⟩
    simp only [List.length_append, List.length_singleton]
    omega
  · exact ⟨hu, ⟨rest, hp⟩, h.bounded⟩

/-- The loop after a byte of a sequence: no text, and at most one more token, of bounded size. -/
structure Sequenced (l l' : Loop) : Prop where
  represented : Represented l'.fence
  text : l'.text = l.text
  utf8 : l'.fence.utf8 = []
  out : l'.out = l.out ∨ ∃ t, t.length ≤ 16 * 1024 ∧ t ≠ [] ∧ l'.out = l.out ++ [t]

theorem Held.goto {g : VtFence} {state : State} (h : Held g) (l : Loop) (hs : state ≠ .ground)
    (d : Bool) : Sequenced l (l.goto { g with discard := d } state) where
  represented := ⟨fun he => absurd he hs, fun _ => ⟨h.utf8, h.starts⟩, .inl h.utf8, h.bounded⟩
  text := rfl
  utf8 := h.utf8
  out := .inl rfl

theorem Held.complete {g : VtFence} (h : Held g) (l : Loop) (d : Bool) :
    Sequenced l (l.complete { g with discard := d }) := by
  have hreset (o : Nat) : Represented (reset { g with discard := d, omitted := o }) :=
    ⟨fun _ => ⟨rfl, rfl⟩, fun hn => absurd rfl hn, .inl h.utf8, Nat.zero_le _⟩
  unfold Loop.complete VtFence.complete
  split
  · exact ⟨hreset _, rfl, h.utf8, .inl rfl⟩
  · split
    · exact ⟨hreset _, rfl, h.utf8, .inl rfl⟩
    · refine ⟨hreset _, rfl, h.utf8, .inr ⟨g.pending, h.bounded, ?_, rfl⟩⟩
      obtain ⟨rest, hp⟩ := h.starts
      rw [hp]
      exact List.cons_ne_nil _ _

/-- The state after a byte does not depend on what is held back. -/
def State.next (s : State) (b : UInt8) : State :=
  match s with
  | .ground => if b = ESC then .esc else .ground
  | .esc =>
    if b = 0x5b then .csi
    else if b = 0x5d then .osc
    else if b = 0x50 ∨ b = 0x5f ∨ b = 0x5e ∨ b = 0x58 then .string
    else if 0x20 ≤ b ∧ b ≤ 0x2f then .esc
    else .ground
  | .csi => if 0x40 ≤ b ∧ b ≤ 0x7e then .ground else if b = 0x18 ∨ b = 0x1a then .ground else .csi
  | .osc => if b = 7 then .ground else if b = ESC then .oscEsc else .osc
  | .oscEsc => if b = 0x5c then .ground else .osc
  | .string => if b = ESC then .stringEsc else .string
  | .stringEsc => if b = 0x5c then .ground else .string

theorem complete_state (f : VtFence) (out : List (List UInt8)) :
    (f.complete out).1.state = .ground := by
  unfold complete
  split
  · rfl
  · split <;> rfl

/-- One byte of a sequence. -/
theorem Represented.sequence (h : Represented l.fence) (hs : l.fence.state ≠ .ground)
    (b : UInt8) :
    Sequenced l (l.pushByte b) ∧ (l.pushByte b).fence.state = l.fence.state.next b := by
  have hheld := h.push hs b
  have hgoto (state : State) (hn : state ≠ .ground) (d : Bool) :=
    hheld.goto l hn d
  have hcomplete (d : Bool) := hheld.complete l d
  have hground (d : Bool) :
      (l.complete { l.fence.push b with discard := d }).fence.state = .ground :=
    complete_state _ _
  unfold Loop.pushByte State.next
  cases hst : l.fence.state with
  | ground => exact absurd hst hs
  | esc =>
    simp only [Loop.pushEsc]
    split
    · exact ⟨hgoto .csi State.noConfusion _, rfl⟩
    · split
      · exact ⟨hgoto .osc State.noConfusion _, rfl⟩
      · split
        · exact ⟨hgoto .string State.noConfusion true, rfl⟩
        · split
          · exact ⟨hgoto .esc State.noConfusion _, rfl⟩
          · exact ⟨hcomplete _, hground _⟩
  | csi =>
    simp only [Loop.pushCsi]
    split
    · exact ⟨hcomplete _, hground _⟩
    · split
      · exact ⟨hcomplete true, hground true⟩
      · split
        · exact ⟨hgoto .csi State.noConfusion true, rfl⟩
        · exact ⟨hgoto .csi State.noConfusion _, rfl⟩
  | osc =>
    simp only [Loop.pushOsc]
    split
    · exact ⟨hcomplete _, hground _⟩
    · split
      · exact ⟨hgoto .oscEsc State.noConfusion _, rfl⟩
      · exact ⟨hgoto .osc State.noConfusion _, rfl⟩
  | oscEsc =>
    simp only [Loop.pushOscEsc]
    split
    · exact ⟨hcomplete _, hground _⟩
    · exact ⟨hgoto .osc State.noConfusion _, rfl⟩
  | string =>
    simp only [Loop.pushString]
    split
    · exact ⟨hgoto .stringEsc State.noConfusion _, rfl⟩
    · exact ⟨hgoto .string State.noConfusion _, rfl⟩
  | stringEsc =>
    simp only [Loop.pushStringEsc]
    split
    · exact ⟨hcomplete _, hground _⟩
    · exact ⟨hgoto .string State.noConfusion _, rfl⟩

/-- One byte of text: how many bytes the text grows by when a malformed sequence counts as
U+FFFD, and the incomplete sequence carried on. -/
def repair (carry : List UInt8) (b : UInt8) : Nat × List UInt8 :=
  if carry.isEmpty then
    if 0xc2 ≤ b then (0, [b]) else if 0x80 ≤ b then (3, []) else (1, [])
  else
    match Utf8.validate (carry ++ [b]) with
    | .ok => (carry.length + 1, [])
    | .invalid _ => (if b < 0x80 then 4 else 3, [])
    | .incomplete => (0, carry ++ [b])

/-- The lengths of the stretches of text in a read. The first one starts with `n` bytes and the
incomplete sequence `carry`, which an escape byte turns into U+FFFD. -/
def textWidths (s : State) (carry : List UInt8) (n : Nat) : List UInt8 → List Nat
  | [] => [n]
  | b :: bytes =>
    if s = .ground then
      if b = ESC then (if carry.isEmpty then n else n + 3) :: textWidths .esc [] 0 bytes
      else textWidths .ground (repair carry b).2 (n + (repair carry b).1) bytes
    else textWidths (s.next b) [] n bytes

/-- The state and the incomplete text sequence after a read. -/
def scan (s : State) (carry : List UInt8) : List UInt8 → State × List UInt8
  | [] => (s, carry)
  | b :: bytes =>
    if s = .ground then
      if b = ESC then scan .esc [] bytes else scan .ground (repair carry b).2 bytes
    else scan (s.next b) [] bytes

theorem mem_flush {out : List (List UInt8)} {text : List UInt8} {M : Nat} :
    (∀ t ∈ flush out text, t.length ≤ M) ↔ (∀ t ∈ out, t.length ≤ M) ∧ text.length ≤ M := by
  cases text with
  | nil => simp [flush]
  | cons b text => simp [flush, or_imp, forall_and]

/-- The loop after a byte of text: no token, and the text grown as `repair` says. -/
structure Texted (l l' : Loop) (b : UInt8) : Prop where
  represented : Represented l'.fence
  state : l'.fence.state = .ground
  out : l'.out = l.out
  text : l'.text.length = l.text.length + (repair l.fence.utf8 b).1
  utf8 : l'.fence.utf8 = (repair l.fence.utf8 b).2

theorem Represented.setUtf8 {utf8 : List UInt8} (h : Represented f) (hs : f.state = .ground)
    (hu : utf8 = [] ∨ Utf8.Carry utf8) : Represented { f with utf8 } :=
  ⟨h.ground, fun hn => absurd hs hn, hu, h.bounded⟩

theorem Represented.text {l : Loop} (h : Represented l.fence) (hs : l.fence.state = .ground)
    (hb : b ≠ ESC) : Texted l (l.pushByte b) b := by
  have hset {utf8 : List UInt8} (hu : utf8 = [] ∨ Utf8.Carry utf8) := h.setUtf8 hs hu
  have hone (bytes : List UInt8) : (l.text ++ bytes).length = l.text.length + bytes.length :=
    List.length_append
  simp only [Loop.pushByte, hs, Loop.pushGround]
  rcases h.carry with hnil | hcarry
  · have hrep : repair l.fence.utf8 b =
        if 0xc2 ≤ b then (0, [b]) else if 0x80 ≤ b then (3, []) else (1, []) := by
      rw [repair, hnil]
      rfl
    rw [if_pos (by rw [hnil]; rfl), if_neg hb]
    split
    · next hlead =>
      rw [if_pos hlead] at hrep
      refine ⟨hset (.inr ?_), hs, rfl, by rw [hrep]; rfl, by rw [hrep, hnil]; rfl⟩
      rw [hnil]
      exact .lead b hlead
    · next hlead =>
      rw [if_neg hlead] at hrep
      split
      · next hhigh =>
        rw [if_pos hhigh] at hrep
        exact ⟨h, hs, rfl, by rw [hrep]; exact hone _, by rw [hrep]; exact hnil⟩
      · next hhigh =>
        rw [if_neg hhigh] at hrep
        exact ⟨h, hs, rfl, by rw [hrep]; exact hone _, by rw [hrep]; exact hnil⟩
  · have hne : l.fence.utf8.isEmpty = false := by
      rw [List.isEmpty_eq_false_iff]
      intro hnil
      rw [hnil] at hcarry
      cases hcarry
    have hrep : repair l.fence.utf8 b = match Utf8.validate (l.fence.utf8 ++ [b]) with
        | .ok => (l.fence.utf8.length + 1, [])
        | .invalid _ => (if b < 0x80 then 4 else 3, [])
        | .incomplete => (0, l.fence.utf8 ++ [b]) := by
      rw [repair, hne]
      rfl
    rw [if_neg (by rw [hne]; exact Bool.false_ne_true)]
    rcases hcarry.snoc b with ⟨hok, _⟩ | ⟨hinc, hcarry'⟩ | ⟨n, hinv⟩
    · simp only [hok] at hrep ⊢
      refine ⟨hset (.inl rfl), hs, rfl, ?_, by rw [hrep]; rfl⟩
      rw [hrep]
      exact (hone _).trans (by rw [List.length_append]; rfl)
    · simp only [hinc] at hrep ⊢
      exact ⟨hset (.inr hcarry'), hs, rfl, by rw [hrep]; rfl, by rw [hrep]; rfl⟩
    · simp only [hinv, if_neg hb] at hrep ⊢
      split
      · next hlow =>
        rw [if_pos hlow] at hrep
        refine ⟨hset (.inl rfl), hs, rfl, ?_, by rw [hrep]; rfl⟩
        rw [hrep]
        simp only [Loop.addText, Loop.setUtf8, List.length_append]
        rfl
      · next hlow =>
        rw [if_neg hlow] at hrep
        refine ⟨hset (.inl rfl), hs, rfl, ?_, by rw [hrep]; rfl⟩
        rw [hrep]
        exact hone _

/-- The loop after an escape byte in text: the text before it becomes a token. -/
theorem Represented.escape {l : Loop} (h : Represented l.fence) (hs : l.fence.state = .ground) :
    Represented (l.pushByte ESC).fence ∧ (l.pushByte ESC).fence.state = .esc ∧
      (l.pushByte ESC).text = [] ∧ (l.pushByte ESC).fence.utf8 = [] ∧
      ∃ text, (l.pushByte ESC).out = flush l.out text ∧
        text.length = if l.fence.utf8.isEmpty then l.text.length else l.text.length + 3 := by
  have hp := (h.ground hs).1
  have hentered (m : Loop) (hm : m.fence.pending = []) (hu : m.fence.utf8 = []) :
      Represented (m.enterEsc ESC).fence := by
    refine ⟨fun he => ?_, fun _ => ⟨hu, [], ?_⟩, .inl hu, ?_⟩
    · cases he
    · simp only [Loop.enterEsc, hm, List.nil_append]
    · simp only [Loop.enterEsc, hm, List.nil_append, List.length_singleton]
      decide
  simp only [Loop.pushByte, hs, Loop.pushGround]
  rcases h.carry with hnil | hcarry
  · simp only [hnil, List.isEmpty_nil, ↓reduceIte]
    exact ⟨hentered l hp hnil, rfl, rfl, hnil, l.text, rfl, rfl⟩
  · have hne : l.fence.utf8.isEmpty = false := by
      rw [List.isEmpty_eq_false_iff]
      intro hnil
      rw [hnil] at hcarry
      cases hcarry
    obtain ⟨n, hinv⟩ := hcarry.snoc_ascii (b := ESC) (by decide)
    simp only [hne, Bool.false_eq_true, ↓reduceIte, hinv]
    rw [if_pos (by decide)]
    refine ⟨hentered _ hp rfl, rfl, rfl, rfl, l.text ++ Utf8.replacement, rfl, ?_⟩
    rw [List.length_append]
    rfl

/-- The tokens of a loop are short exactly when the stretches of text are. -/
theorem Represented.tokens_le {l : Loop} (h : Represented l.fence) (hset : l.Settled) {M : Nat}
    (hM : 16 * 1024 ≤ M) (bytes : List UInt8) :
    (∀ t ∈ flush (bytes.foldl Loop.pushByte l).out (bytes.foldl Loop.pushByte l).text,
        t.length ≤ M) ↔
      (∀ t ∈ l.out, t.length ≤ M) ∧
        ∀ n ∈ textWidths l.fence.state l.fence.utf8 l.text.length bytes, n ≤ M := by
  induction bytes generalizing l with
  | nil =>
    simp only [List.foldl_nil, mem_flush, textWidths, List.mem_singleton, forall_eq]
  | cons b bytes ih =>
    rw [List.foldl_cons]
    by_cases hs : l.fence.state = .ground
    · by_cases hb : b = ESC
      · subst hb
        obtain ⟨hr, hst, ht, hu, text, hout, hlen⟩ := h.escape hs
        rw [ih hr (.inl ht), hout, hst, ht, hu, mem_flush, hlen]
        simp only [textWidths, hs, ↓reduceIte, List.mem_cons, forall_eq_or_imp, List.length_nil,
          and_assoc]
      · obtain ⟨hr, hst, hout, ht, hu⟩ := h.text hs hb
        rw [ih hr (.inr hst), hout, hst, ht, hu]
        simp only [textWidths, hs, ↓reduceIte, if_neg hb]
    · obtain ⟨⟨hr, ht, hu, hout⟩, hst⟩ := h.sequence hs b
      have hempty : l.text = [] := by
        rcases hset with he | hg
        · exact he
        · exact absurd hg hs
      rw [ih hr (.inl (ht.trans hempty)), hst, ht, hu]
      simp only [textWidths, if_neg hs]
      rcases hout with hsame | ⟨t, htlen, _, hone⟩
      · rw [hsame]
      · have htM : t.length ≤ M := Nat.le_trans htlen hM
        simp only [hone, List.mem_append, List.mem_singleton, or_imp, forall_and, forall_eq, htM,
          and_true]

theorem Represented.scan_foldl {l : Loop} (h : Represented l.fence) (bytes : List UInt8) :
    ((bytes.foldl Loop.pushByte l).fence.state, (bytes.foldl Loop.pushByte l).fence.utf8) =
      scan l.fence.state l.fence.utf8 bytes := by
  induction bytes generalizing l with
  | nil => rfl
  | cons b bytes ih =>
    rw [List.foldl_cons]
    by_cases hs : l.fence.state = .ground
    · by_cases hb : b = ESC
      · subst hb
        obtain ⟨hr, hst, _, hu, _⟩ := h.escape hs
        rw [ih hr, hst, hu]
        simp only [scan, hs, ↓reduceIte]
      · obtain ⟨hr, hst, _, _, hu⟩ := h.text hs hb
        rw [ih hr, hst, hu]
        simp only [scan, hs, ↓reduceIte, if_neg hb]
    · obtain ⟨⟨hr, _, hu, _⟩, hst⟩ := h.sequence hs b
      rw [ih hr, hst, hu]
      simp only [scan, if_neg hs]

/-- What a call carries over depends on the bytes alone. -/
theorem Represented.pushBytes_scan (h : Represented f) (bytes : List UInt8) :
    ((f.pushBytes bytes).1.state, (f.pushBytes bytes).1.utf8) = scan f.state f.utf8 bytes :=
  Represented.scan_foldl (l := ⟨f, [], []⟩) h bytes

theorem flush_ne_nil {out : List (List UInt8)} (h : ∀ t ∈ out, t ≠ []) (text : List UInt8) :
    ∀ t ∈ flush out text, t ≠ [] := by
  cases text with
  | nil => exact h
  | cons b text =>
    intro t ht
    rcases List.mem_append.1 ht with ht | ht
    · exact h t ht
    · rw [List.mem_singleton.1 ht]
      exact List.cons_ne_nil b text

/-- One byte keeps the representation and releases no empty token. -/
theorem Represented.pushByte {l : Loop} (h : Represented l.fence) (hout : ∀ t ∈ l.out, t ≠ [])
    (b : UInt8) :
    Represented (l.pushByte b).fence ∧ ∀ t ∈ (l.pushByte b).out, t ≠ [] := by
  by_cases hs : l.fence.state = .ground
  · by_cases hb : b = ESC
    · subst hb
      obtain ⟨hr, _, _, _, text, ho, _⟩ := h.escape hs
      rw [ho]
      exact ⟨hr, flush_ne_nil hout text⟩
    · obtain ⟨hr, _, ho, _, _⟩ := h.text hs hb
      rw [ho]
      exact ⟨hr, hout⟩
  · obtain ⟨⟨hr, _, _, ho⟩, _⟩ := h.sequence hs b
    refine ⟨hr, ?_⟩
    rcases ho with ho | ⟨t, _, hne, ho⟩
    · rw [ho]
      exact hout
    · rw [ho]
      intro t' ht
      rcases List.mem_append.1 ht with ht | ht
      · exact hout t' ht
      · rw [List.mem_singleton.1 ht]
        exact hne

/-- One call keeps the representation and releases no empty token. -/
theorem Represented.pushBytes (h : Represented f) (bytes : List UInt8) :
    Represented (f.pushBytes bytes).1 ∧ ∀ t ∈ (f.pushBytes bytes).2, t ≠ [] := by
  have hfold (l : Loop) (hl : Represented l.fence) (ho : ∀ t ∈ l.out, t ≠ []) :
      Represented (bytes.foldl Loop.pushByte l).fence ∧
        ∀ t ∈ (bytes.foldl Loop.pushByte l).out, t ≠ [] := by
    induction bytes generalizing l with
    | nil => exact ⟨hl, ho⟩
    | cons b bytes ih =>
      obtain ⟨hl', ho'⟩ := hl.pushByte ho b
      exact ih (l.pushByte b) hl' ho'
  obtain ⟨hf, ho⟩ := hfold ⟨f, [], []⟩ h (by simp)
  exact ⟨hf, flush_ne_nil ho _⟩

theorem Represented.pushChunks (h : Represented f) (chunks : List (List UInt8)) :
    Represented (f.pushChunks chunks).1 := by
  induction chunks generalizing f with
  | nil => exact h
  | cons c cs ih => exact ih (h.pushBytes c).1

theorem Represented.pendingLen_le (h : Represented f) : f.pendingLen ≤ 16 * 1024 := by
  unfold pendingLen
  by_cases hs : f.state = .ground
  · rw [(h.ground hs).1, List.length_nil, Nat.zero_add]
    rcases h.carry with hu | hu
    · rw [hu]
      exact Nat.zero_le _
    · exact Nat.le_trans hu.length_le (by decide)
  · rw [(h.other hs).1]
    exact h.bounded

/-- The fence after some chunks. -/
def fed (chunks : List (List UInt8)) : VtFence := (default.pushChunks chunks).1

/-- Whatever was fed in whatever chunks, the fence holds back a sequence or the beginning of a
scalar, never both, and a bounded number of bytes. -/
theorem representation (chunks : List (List UInt8)) :
    ((fed chunks).state = .ground → (fed chunks).pending = [] ∧ (fed chunks).discard = false) ∧
      ((fed chunks).state ≠ .ground →
        (fed chunks).utf8 = [] ∧ (fed chunks).pending.head? = some ESC) ∧
      (fed chunks).utf8.length ≤ 3 ∧
      ((fed chunks).utf8 ≠ [] → Utf8.validate (fed chunks).utf8 ≠ .ok) ∧
      (fed chunks).pendingLen ≤ 16384 := by
  have h : Represented (fed chunks) := represented_default.pushChunks chunks
  refine ⟨h.ground, ?_, ?_, ?_, h.pendingLen_le⟩
  · intro hs
    obtain ⟨hu, rest, hp⟩ := h.other hs
    rw [hp]
    exact ⟨hu, rfl⟩
  · rcases h.carry with hu | hu
    · rw [hu]
      exact Nat.zero_le 3
    · exact hu.length_le
  · intro hne
    rcases h.carry with hu | hu
    · exact absurd hu hne
    · exact hu.ne_ok

/-- The widest stretch of text decides whether all tokens of a read are short. -/
theorem Represented.pushBytes_le (h : Represented f) {M : Nat} (hM : 16 * 1024 ≤ M)
    (bytes : List UInt8) :
    (∀ t ∈ (f.pushBytes bytes).2, t.length ≤ M) ↔
      ∀ n ∈ textWidths f.state f.utf8 0 bytes, n ≤ M := by
  have ht := Represented.tokens_le (l := ⟨f, [], []⟩) h (.inl rfl) hM bytes
  simp only [List.not_mem_nil, IsEmpty.forall_iff, implies_true, true_and, List.length_nil] at ht
  exact ht

end VtFence
end RemoteCodex
