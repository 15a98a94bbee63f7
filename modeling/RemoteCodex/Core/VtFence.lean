import RemoteCodex.Lib.Mealy
import RemoteCodex.Lib.Utf8

namespace RemoteCodex
set_option autoImplicit true

namespace VtFence

inductive State where
  | ground
  | esc
  | csi
  | osc
  | oscEsc
  | string
  | stringEsc
  deriving DecidableEq, Repr

end VtFence

/-- The framing fence between the PTY and the terminal model. -/
structure VtFence where
  state : VtFence.State
  pending : List UInt8
  utf8 : List UInt8
  discard : Bool
  omitted : Nat
  deriving DecidableEq

namespace VtFence

def default : VtFence := ⟨.ground, [], [], false, 0⟩

def ESC : UInt8 := 0x1b

def push (f : VtFence) (b : UInt8) : VtFence :=
  if f.pending.length < 16 * 1024 then { f with pending := f.pending ++ [b] }
  else { f with discard := true }

/-- `ESC ] 5 2 ;` or `ESC ] 8 ;` -/
def unsafeOsc (pending : List UInt8) : Bool :=
  [ESC, 0x5d, 0x35, 0x32, 0x3b].isPrefixOf pending || [ESC, 0x5d, 0x38, 0x3b].isPrefixOf pending

def reset (f : VtFence) : VtFence := { f with state := .ground, pending := [], discard := false }

def complete (f : VtFence) (out : List (List UInt8)) : VtFence × List (List UInt8) :=
  if f.discard || unsafeOsc f.pending then ({ f with omitted := f.omitted + 1 }.reset, out)
  else if f.pending.isEmpty then (f.reset, out)
  else (f.reset, out ++ [f.pending])

/-- The loop of `push_bytes`: the fence, the tokens released and the text not yet released. -/
structure Loop where
  fence : VtFence
  out : List (List UInt8)
  text : List UInt8

def flush (out : List (List UInt8)) (text : List UInt8) : List (List UInt8) :=
  if text.isEmpty then out else out ++ [text]

namespace Loop

def addText (l : Loop) (bytes : List UInt8) : Loop := { l with text := l.text ++ bytes }

def setUtf8 (l : Loop) (utf8 : List UInt8) : Loop := { l with fence := { l.fence with utf8 } }

/-- An escape byte in the ground state ends the text before it. -/
def enterEsc (l : Loop) (b : UInt8) : Loop :=
  { fence := { l.fence with pending := l.fence.pending ++ [b], state := .esc }
    out := flush l.out l.text
    text := [] }

def goto (l : Loop) (f : VtFence) (state : State) : Loop := { l with fence := { f with state } }

def complete (l : Loop) (f : VtFence) : Loop :=
  let q := f.complete l.out
  { l with fence := q.1, out := q.2 }

def pushGround (l : Loop) (b : UInt8) : Loop :=
  if l.fence.utf8.isEmpty then
    if b = ESC then l.enterEsc b
    else if 0xc2 ≤ b then l.setUtf8 (l.fence.utf8 ++ [b])
    else if 0x80 ≤ b then l.addText Utf8.replacement
    else l.addText [b]
  else
    let utf8 := l.fence.utf8 ++ [b]
    match Utf8.validate utf8 with
    | .ok => (l.addText utf8).setUtf8 []
    | .invalid _ =>
      let l := (l.addText Utf8.replacement).setUtf8 []
      if b < 0x80 then
        if b = ESC then l.enterEsc b else l.addText [b]
      else l
    | .incomplete => l.setUtf8 utf8

def pushEsc (l : Loop) (b : UInt8) : Loop :=
  let f := l.fence.push b
  if b = 0x5b then l.goto f .csi
  else if b = 0x5d then l.goto f .osc
  else if b = 0x50 ∨ b = 0x5f ∨ b = 0x5e ∨ b = 0x58 then l.goto { f with discard := true } .string
  else if 0x20 ≤ b ∧ b ≤ 0x2f then l.goto f .esc
  else l.complete f

def pushCsi (l : Loop) (b : UInt8) : Loop :=
  let f := l.fence.push b
  if 0x40 ≤ b ∧ b ≤ 0x7e then l.complete f
  else if b = 0x18 ∨ b = 0x1a then l.complete { f with discard := true }
  else if 1024 < f.pending.length then l.goto { f with discard := true } .csi
  else l.goto f .csi

def pushOsc (l : Loop) (b : UInt8) : Loop :=
  let f := l.fence.push b
  if b = 7 then l.complete f
  else if b = ESC then l.goto f .oscEsc
  else l.goto f .osc

def pushOscEsc (l : Loop) (b : UInt8) : Loop :=
  let f := l.fence.push b
  if b = 0x5c then l.complete f else l.goto f .osc

def pushString (l : Loop) (b : UInt8) : Loop :=
  l.goto (l.fence.push b) (if b = ESC then .stringEsc else .string)

def pushStringEsc (l : Loop) (b : UInt8) : Loop :=
  let f := l.fence.push b
  if b = 0x5c then l.complete f else l.goto f .string

/-- One byte of the loop. -/
def pushByte (l : Loop) (b : UInt8) : Loop :=
  match l.fence.state with
  | .ground => l.pushGround b
  | .esc => l.pushEsc b
  | .csi => l.pushCsi b
  | .osc => l.pushOsc b
  | .oscEsc => l.pushOscEsc b
  | .string => l.pushString b
  | .stringEsc => l.pushStringEsc b

/-- Everything released so far. -/
def released (l : Loop) : List UInt8 := l.out.flatten ++ l.text

end Loop

def pushBytes (f : VtFence) (bytes : List UInt8) : VtFence × List (List UInt8) :=
  let l := bytes.foldl Loop.pushByte ⟨f, [], []⟩
  (l.fence, flush l.out l.text)

example : (pushBytes default [0x1b, 0x5b, 0x33, 0x31]).2 = [] := by decide

example : (pushBytes default [0x41, 0x1b, 0x5d, 0x35, 0x32, 0x3b, 0x63, 7, 0x42]).2 =
    [[0x41], [0x42]] := by decide

/-- What is held back. -/
def pendingLen (f : VtFence) : Nat := f.pending.length + f.utf8.length

/-- The bytes one byte releases. -/
def step (f : VtFence) (b : UInt8) : VtFence × List UInt8 :=
  let l := Loop.pushByte ⟨f, [], []⟩ b
  (l.fence, l.released)

theorem complete_out (f : VtFence) (out : List (List UInt8)) :
    f.complete out = ((f.complete []).1, out ++ (f.complete []).2) := by
  unfold complete
  split
  · simp only [List.append_nil]
  · split <;> simp only [List.nil_append, List.append_nil]

theorem flatten_flush (out : List (List UInt8)) (text : List UInt8) :
    (flush out text).flatten = out.flatten ++ text := by
  cases text with
  | nil => simp only [flush, List.isEmpty_nil, ↓reduceIte, List.append_nil]
  | cons b text =>
    simp only [flush, List.isEmpty_cons, Bool.false_eq_true, ↓reduceIte, List.flatten_append,
      List.flatten_singleton]

namespace Loop

/-- Text is collected in the ground state only. -/
def Settled (l : Loop) : Prop := l.text = [] ∨ l.fence.state = .ground

/-- The loop `l` after a byte, against the same byte with nothing released before. -/
structure Agrees (before : List UInt8) (l m : Loop) : Prop where
  fence : l.fence = m.fence
  released : l.released = before ++ m.released
  settled : l.Settled

theorem Agrees.goto {l : Loop} (ht : l.text = []) (f : VtFence) (state : State) :
    Agrees l.released (l.goto f state) (Loop.goto ⟨g, [], []⟩ f state) where
  fence := rfl
  released := (List.append_nil _).symm
  settled := .inl ht

theorem Agrees.complete {l : Loop} (ht : l.text = []) (f : VtFence) :
    Agrees l.released (l.complete f) (Loop.complete ⟨g, [], []⟩ f) where
  fence := by simp only [Loop.complete, complete_out f l.out]
  released := by
    simp only [Loop.complete, Loop.released, complete_out f l.out, ht, List.flatten_append,
      List.append_nil]
  settled := .inl ht

theorem Agrees.ite {c : Prop} [Decidable c] {l l' m m' : Loop} (h : c → Agrees r l m)
    (h' : ¬ c → Agrees r l' m') :
    Agrees r (if c then l else l') (if c then m else m') := by
  split
  · next hc => exact h hc
  · next hc => exact h' hc

theorem Agrees.ground (l : Loop) (hs : l.fence.state = .ground) (b : UInt8) :
    Agrees l.released (l.pushGround b) (Loop.pushGround ⟨l.fence, [], []⟩ b) := by
  have htext (bytes utf8 : List UInt8) :
      Agrees l.released ((l.addText bytes).setUtf8 utf8)
        ((Loop.addText ⟨l.fence, [], []⟩ bytes).setUtf8 utf8) :=
    ⟨rfl, by simp [Loop.released, addText, setUtf8], .inr hs⟩
  have hplain (bytes : List UInt8) :
      Agrees l.released (l.addText bytes) (Loop.addText ⟨l.fence, [], []⟩ bytes) :=
    ⟨rfl, by simp [Loop.released, addText], .inr hs⟩
  have hcarry (utf8 : List UInt8) :
      Agrees l.released (l.setUtf8 utf8) (Loop.setUtf8 ⟨l.fence, [], []⟩ utf8) :=
    ⟨rfl, by simp [Loop.released, setUtf8], .inr hs⟩
  unfold pushGround
  refine .ite (fun _ => ?_) (fun _ => ?_)
  · refine .ite (fun _ => ?_) (fun _ => .ite (fun _ => hcarry _) (fun _ =>
      .ite (fun _ => hplain _) (fun _ => hplain _)))
    exact ⟨rfl, by simp [Loop.released, enterEsc, flatten_flush], .inl rfl⟩
  · simp only
    cases Utf8.validate (l.fence.utf8 ++ [b]) with
    | ok => exact htext _ _
    | incomplete => exact hcarry _
    | invalid n =>
      refine .ite (fun _ => .ite (fun _ => ?_) (fun _ => ?_)) (fun _ => htext _ _)
      · exact ⟨rfl, by simp [Loop.released, enterEsc, addText, setUtf8, flatten_flush], .inl rfl⟩
      · exact ⟨rfl, by simp [Loop.released, addText, setUtf8], .inr hs⟩

/-- What one byte does depends on the fence alone. -/
theorem Agrees.pushByte (l : Loop) (h : l.Settled) (b : UInt8) :
    Agrees l.released (l.pushByte b) (Loop.pushByte ⟨l.fence, [], []⟩ b) := by
  have ht (hs : l.fence.state ≠ .ground) : l.text = [] := by
    rcases h with h | h
    · exact h
    · exact absurd h hs
  unfold Loop.pushByte
  cases hs : l.fence.state with
  | ground => exact .ground l hs b
  | esc =>
    have ht := ht (by rw [hs]; exact State.noConfusion)
    exact .ite (fun _ => .goto ht _ _) fun _ => .ite (fun _ => .goto ht _ _) fun _ =>
      .ite (fun _ => .goto ht _ _) fun _ => .ite (fun _ => .goto ht _ _) fun _ =>
      .complete ht _
  | csi =>
    have ht := ht (by rw [hs]; exact State.noConfusion)
    exact .ite (fun _ => .complete ht _) fun _ => .ite (fun _ => .complete ht _) fun _ =>
      .ite (fun _ => .goto ht _ _) fun _ => .goto ht _ _
  | osc =>
    have ht := ht (by rw [hs]; exact State.noConfusion)
    exact .ite (fun _ => .complete ht _) fun _ => .ite (fun _ => .goto ht _ _) fun _ =>
      .goto ht _ _
  | oscEsc =>
    have ht := ht (by rw [hs]; exact State.noConfusion)
    exact .ite (fun _ => .complete ht _) fun _ => .goto ht _ _
  | string =>
    have ht := ht (by rw [hs]; exact State.noConfusion)
    exact .goto ht _ _
  | stringEsc =>
    have ht := ht (by rw [hs]; exact State.noConfusion)
    exact .ite (fun _ => .complete ht _) fun _ => .goto ht _ _

/-- The loop over the bytes is a run of single steps. -/
theorem foldl_pushByte (l : Loop) (h : l.Settled) (bytes : List UInt8) :
    (bytes.foldl pushByte l).fence = (Mealy.run step l.fence bytes).1 ∧
      (bytes.foldl pushByte l).released = l.released ++ (Mealy.run step l.fence bytes).2 := by
  induction bytes generalizing l with
  | nil => exact ⟨rfl, (List.append_nil _).symm⟩
  | cons b bytes ih =>
    have hb := Agrees.pushByte l h b
    obtain ⟨hf, hr⟩ := ih (l.pushByte b) hb.settled
    have hstep : (l.pushByte b).fence = (step l.fence b).1 := hb.fence
    have hrel : (l.pushByte b).released = l.released ++ (step l.fence b).2 := hb.released
    rw [List.foldl_cons, Mealy.run_cons, ← hstep, hf, hr, hrel, List.append_assoc]
    exact ⟨rfl, rfl⟩

end Loop

/-- `push_bytes` is a run of single steps, up to the division into tokens. -/
theorem pushBytes_run (f : VtFence) (bytes : List UInt8) :
    (f.pushBytes bytes).1 = (Mealy.run step f bytes).1 ∧
      (f.pushBytes bytes).2.flatten = (Mealy.run step f bytes).2 := by
  obtain ⟨hf, hr⟩ := Loop.foldl_pushByte ⟨f, [], []⟩ (.inl rfl) bytes
  refine ⟨hf, ?_⟩
  simp only [pushBytes, flatten_flush]
  exact hr

/-- Feed chunks one after another, concatenating what they release. -/
def pushChunks (f : VtFence) : List (List UInt8) → VtFence × List UInt8
  | [] => (f, [])
  | c :: cs =>
    let p := f.pushBytes c
    let q := pushChunks p.1 cs
    (q.1, p.2.flatten ++ q.2)

theorem pushChunks_run (f : VtFence) (chunks : List (List UInt8)) :
    f.pushChunks chunks = Mealy.run step f chunks.flatten := by
  rw [← Mealy.runChunks_eq]
  induction chunks generalizing f with
  | nil => rfl
  | cons c cs ih =>
    obtain ⟨hf, hr⟩ := f.pushBytes_run c
    simp only [pushChunks, Mealy.runChunks, hf, hr, ih]

/-- Chunking independence: however the bytes are cut, the fence ends in the same state, with
the same count of omitted sequences, and has released the same bytes. -/
theorem chunking_independent (chunks : List (List UInt8)) :
    (default.pushChunks chunks).1 = (default.pushBytes chunks.flatten).1 ∧
      (default.pushChunks chunks).2 = (default.pushBytes chunks.flatten).2.flatten := by
  obtain ⟨hf, hr⟩ := default.pushBytes_run chunks.flatten
  rw [pushChunks_run, hf, hr]
  exact ⟨rfl, rfl⟩

end VtFence
end RemoteCodex
