import RemoteCodex.Agent.SessionFrames
import RemoteCodex.Agent.OutputFrames

namespace RemoteCodex
set_option autoImplicit true
open Trace

/-- Where a `commit_resize` is: before the output lock, under it, with the model resized, and
with the size recorded and published. -/
inductive CommitStage where
  | waiting
  | locked
  | applied
  | published

/-- Where the call of `resize` that holds the guard is. `old` is the size it read. -/
inductive ResizePhase where
  | guarded
  | checked (old : Size)
  | committing (old : Size) (rollback : Bool) (stage : CommitStage)
  | resizing (old : Size)

/-- The call of `resize` that holds the guard. -/
structure ResizeCall where
  size : Size
  phase : ResizePhase

/-- What an observer of the sizes sees; calls are numbered as they take the guard. -/
inductive ResizeEvent where
  | published (call : Option Nat) (frame : Frame)
  | subscribed (info : SnapshotMeta) (data : List UInt8)
  | refused (call : Nat)
  | returned (call : Nat) (result : Except ErrorCode Unit)

/-- The output side of a session with its calls of `resize`. The calls that wait for the guard
have done nothing yet. -/
structure ResizeWorld (Term : Type) where
  o : OutputState Term
  m : SessionInfo
  entered : Nat
  inside : Option ResizeCall

namespace ResizeWorld

variable {Term : Type}

def init (t : TerminalModel Term) (ringBytes : Nat) (m : SessionInfo) : ResizeWorld Term :=
  ⟨⟨t, .default, .new ringBytes, 0⟩, m, 0, none⟩

/-- The output lock is taken by the call inside. -/
def locked (w : ResizeWorld Term) : Bool :=
  match w.inside with
  | some ⟨_, .committing _ _ .locked⟩ | some ⟨_, .committing _ _ .applied⟩
  | some ⟨_, .committing _ _ .published⟩ => true
  | _ => false

def goto (w : ResizeWorld Term) (size : Size) (phase : ResizePhase) : ResizeWorld Term :=
  { w with inside := some ⟨size, phase⟩ }

def leave (w : ResizeWorld Term) : ResizeWorld Term := { w with inside := none }

/-- The size that a commit sets. -/
def target (size old : Size) (rollback : Bool) : Size := if rollback then old else size

/-- The frame that a commit publishes; the sequence number is already taken. -/
def resizeFrame (w : ResizeWorld Term) (size : Size) : Frame :=
  ⟨Frame.RESIZE, w.m.sessionId, w.m.generation, w.o.seq, sizePayload size⟩

/-- The atomic actions of the calls, of the reader thread and of `subscribe_snapshot`. -/
inductive Step (E : Engine Term) : ResizeWorld Term → List ResizeEvent → ResizeWorld Term → Prop
    where
  | enter (w : ResizeWorld Term) (size : Size) (hi : w.inside = none) :
      Step E w [] ({ w with entered := w.entered + 1 }.goto size .guarded)
  /-- The scope, the bounds, the lease or the running flag is refused. -/
  | deny (w : ResizeWorld Term) (size : Size) (e : ErrorCode)
      (hi : w.inside = some ⟨size, .guarded⟩) :
      Step E w [.returned w.entered (.error e)] w.leave
  | same (w : ResizeWorld Term) (size : Size) (hi : w.inside = some ⟨size, .guarded⟩)
      (hv : size.Valid) (hs : w.m.size = size) : Step E w [.returned w.entered (.ok ())] w.leave
  | differ (w : ResizeWorld Term) (size : Size) (hi : w.inside = some ⟨size, .guarded⟩)
      (hv : size.Valid) (hs : w.m.size ≠ size) : Step E w [] (w.goto size (.checked w.m.size))
  /-- The pseudoconsole was closed in the meantime. -/
  | closed (w : ResizeWorld Term) (size old : Size) (hi : w.inside = some ⟨size, .checked old⟩) :
      Step E w [.returned w.entered (.error .sessionLost)] w.leave
  | start (w : ResizeWorld Term) (size old : Size) (hi : w.inside = some ⟨size, .checked old⟩) :
      Step E w [] (w.goto size (.committing old false .waiting))
  | lock (w : ResizeWorld Term) (size old : Size) (rollback : Bool)
      (hi : w.inside = some ⟨size, .committing old rollback .waiting⟩) :
      Step E w [] (w.goto size (.committing old rollback .locked))
  | apply (w : ResizeWorld Term) (size old : Size) (rollback : Bool)
      (hi : w.inside = some ⟨size, .committing old rollback .locked⟩) :
      Step E w [] ({ w with o := { w.o with
          model := w.o.model.resize E (target size old rollback), seq := w.o.seq + 1 } }.goto
        size (.committing old rollback .applied))
  | publish (w : ResizeWorld Term) (size old : Size) (rollback : Bool)
      (hi : w.inside = some ⟨size, .committing old rollback .applied⟩) :
      Step E w [.published (some w.entered) (w.resizeFrame (target size old rollback))]
        ({ w with
            o := { w.o with ring := w.o.ring.push (w.resizeFrame (target size old rollback)) }
            m := { w.m with
              cols := (target size old rollback).cols
              rows := (target size old rollback).rows } }.goto
          size (.committing old rollback .published))
  | unlock (w : ResizeWorld Term) (size old : Size)
      (hi : w.inside = some ⟨size, .committing old false .published⟩) :
      Step E w [] (w.goto size (.resizing old))
  | accept (w : ResizeWorld Term) (size old : Size) (hi : w.inside = some ⟨size, .resizing old⟩) :
      Step E w [.returned w.entered (.ok ())] w.leave
  /-- The PTY does not take the new size. -/
  | refuse (w : ResizeWorld Term) (size old : Size) (hi : w.inside = some ⟨size, .resizing old⟩) :
      Step E w [.refused w.entered] (w.goto size (.committing old true .waiting))
  | fail (w : ResizeWorld Term) (size old : Size)
      (hi : w.inside = some ⟨size, .committing old true .published⟩) :
      Step E w [.returned w.entered (.error .internal)] w.leave
  | read (w : ResizeWorld Term) (bytes : List UInt8) (hl : w.locked = false)
      (hb : bytes.length ≤ MAX_PAYLOAD) :
      Step E w ((published (readChunk E w.m w.o bytes).2).map (.published none))
        { w with o := (readChunk E w.m w.o bytes).1 }
  | subscribe (w : ResizeWorld Term) (info : SnapshotMeta) (data : List UInt8)
      (hl : w.locked = false) (hs : subscribeSnapshot E w.m w.o = .ok (info, data)) :
      Step E w [.subscribed info data] w

end ResizeWorld

def ResizeEvent.frame? : ResizeEvent → Option Frame
  | .published _ f => some f
  | _ => none

/-- The frames published, whoever did it. -/
def framesOf (es : List ResizeEvent) : List Frame := es.filterMap ResizeEvent.frame?

def ResizeEvent.resize? (call : Nat) : ResizeEvent → Option Frame
  | .published (some c) f => if c = call ∧ f.kind = Frame.RESIZE then some f else none
  | _ => none

/-- The RESIZE frames of one call. -/
def resizesOf (call : Nat) (es : List ResizeEvent) : List Frame :=
  es.filterMap (ResizeEvent.resize? call)

/-- The payload of the last RESIZE frame, or that of the initial size. -/
def inForce (first : Size) (fs : List Frame) : List UInt8 :=
  match (fs.filter fun f => f.kind == Frame.RESIZE).getLast? with
  | some f => f.payload
  | none => sizePayload first

theorem framesOf_append (es fs : List ResizeEvent) :
    framesOf (es ++ fs) = framesOf es ++ framesOf fs := List.filterMap_append

theorem resizesOf_append (c : Nat) (es fs : List ResizeEvent) :
    resizesOf c (es ++ fs) = resizesOf c es ++ resizesOf c fs := List.filterMap_append

theorem inForce_resize (first : Size) (fs : List Frame) {f : Frame} (hk : f.kind = Frame.RESIZE) :
    inForce first (fs ++ [f]) = f.payload := by
  have hf : ([f].filter fun f => f.kind == Frame.RESIZE) = [f] := by
    rw [List.filter_singleton, hk]
    rfl
  simp only [inForce, List.filter_append, hf, List.getLast?_append, List.getLast?_singleton,
    Option.some_or]

theorem inForce_output (first : Size) (fs : List Frame) {gs : List Frame}
    (hk : ∀ f ∈ gs, f.kind = Frame.OUTPUT) : inForce first (fs ++ gs) = inForce first fs := by
  have hnil : (gs.filter fun f => f.kind == Frame.RESIZE) = [] := by
    rw [List.filter_eq_nil_iff]
    intro f hf
    rw [hk f hf]
    decide
  simp only [inForce, List.filter_append, hnil, List.append_nil]

variable {Term : Type} {E : Engine Term}

/-- The session record, the terminal model and the last RESIZE frame have one size. -/
def Agreed (first : Size) (fs : List Frame) (m : SessionInfo) (o : OutputState Term) : Prop :=
  o.model.size = m.size ∧ inForce first fs = sizePayload m.size

theorem OutputWorld.run_agreed {m : SessionInfo} {t : TerminalModel Term} (ht : t.size = m.size)
    (h : Run (OutputWorld.Step E) (OutputWorld.init t ringBytes m) es w) :
    Agreed m.size (published es) w.m w.o := by
  apply h.invariant (I := fun es (w : OutputWorld Term) => Agreed m.size (published es) w.m w.o)
  · exact ⟨ht, rfl⟩
  · rintro es w e u ⟨hm, hf⟩ hs
    rw [published_append]
    have hquiet (he : published e = []) : inForce m.size (published es ++ published e) =
        sizePayload w.m.size := by
      rw [he, List.append_nil]
      exact hf
    have hcommit (size : Size) (resizing : ResizePc) :
        Agreed m.size (published es ++ published (commitResize E w.m w.o size).2)
          (w.commit E size resizing).m (w.commit E size resizing).o :=
      ⟨rfl, inForce_resize m.size _ rfl⟩
    cases hs with
    | read bytes hb =>
      obtain ⟨-, hsize⟩ := readChunk_emitted (E := E) (m := w.m) w.o bytes
      exact ⟨hsize.trans hm, (inForce_output _ _ (published_readChunk w.o bytes)).trans hf⟩
    | resizeStart | resizeLost | resizeDone | subscribe => exact ⟨hm, hquiet rfl⟩
    | resizeCommit old new hp => exact hcommit new (.committed old)
    | resizeRollback old hp => exact hcommit old .idle

namespace ResizeWorld

/-- The resize in progress, when only whole commits are seen. -/
def progress : Option ResizeCall → ResizePc
  | some ⟨size, .checked old⟩ => .checked old size
  | some ⟨_, .committing old false .published⟩ => .committed old
  | some ⟨size, .committing old false _⟩ => .checked old size
  | some ⟨_, .resizing old⟩ => .committed old
  | some ⟨_, .committing _ true .published⟩ => .idle
  | some ⟨_, .committing old true _⟩ => .committed old
  | _ => .idle

/-- The output state with the half of a commit that is not seen yet. -/
def half (E : Engine Term) (o : OutputState Term) : Option ResizeCall → OutputState Term
  | some ⟨size, .committing old rollback .applied⟩ =>
    { o with model := o.model.resize E (target size old rollback), seq := o.seq + 1 }
  | _ => o

/-- The state against one in which commits are atomic. -/
structure Mirrors (E : Engine Term) (w : ResizeWorld Term) (a : OutputWorld Term) : Prop where
  info : a.m = w.m
  progress : a.resizing = ResizeWorld.progress w.inside
  output : w.o = half E a.o w.inside

theorem half_free (E : Engine Term) (o : OutputState Term) {w : ResizeWorld Term}
    (hl : w.locked = false) : half E o w.inside = o := by
  unfold half
  split
  · next hi =>
    unfold locked at hl
    rw [hi] at hl
    cases hl
  · rfl

/-- A step of the calls is a step of the output side, or cannot be seen there. -/
theorem Step.refines {w u : ResizeWorld Term} {a : OutputWorld Term} (hs : Step E w e u)
    (h : Mirrors E w a) :
    ∃ fs b, Run (OutputWorld.Step E) a fs b ∧ Mirrors E u b ∧ published fs = framesOf e := by
  obtain ⟨hm, hp, ho⟩ := h
  cases hs with
  | enter size hi =>
    rw [hi] at hp ho
    exact ⟨[], a, .nil, ⟨hm, hp, ho⟩, rfl⟩
  | deny size e hi | same size hi hv hs =>
    rw [hi] at hp ho
    exact ⟨[], a, .nil, ⟨hm, hp, ho⟩, rfl⟩
  | differ size hi hv hs =>
    rw [hi] at hp ho
    refine ⟨_, _, .single (.resizeStart a size hp hv.cols hv.rows ?_), ⟨hm, ?_, ho⟩, rfl⟩
    · rw [hm]
      exact Ne.symm hs
    · rw [hm]
      rfl
  | closed size old hi =>
    rw [hi] at hp ho
    exact ⟨_, _, .single (.resizeLost a old size hp), ⟨hm, rfl, ho⟩, rfl⟩
  | start size old hi =>
    rw [hi] at hp ho
    exact ⟨[], a, .nil, ⟨hm, hp, ho⟩, rfl⟩
  | lock size old rollback hi =>
    rw [hi] at hp ho
    cases rollback with
    | false => exact ⟨[], a, .nil, ⟨hm, hp, ho⟩, rfl⟩
    | true => exact ⟨[], a, .nil, ⟨hm, hp, ho⟩, rfl⟩
  | apply size old rollback hi =>
    rw [hi] at hp ho
    rw [ho]
    cases rollback with
    | false => exact ⟨[], a, .nil, ⟨hm, hp, rfl⟩, rfl⟩
    | true => exact ⟨[], a, .nil, ⟨hm, hp, rfl⟩, rfl⟩
  | publish size old rollback hi =>
    rw [hi] at hp ho
    unfold resizeFrame
    rw [ho, ← hm]
    cases rollback with
    | false =>
      exact ⟨_, _, .single (.resizeCommit a old size hp), ⟨rfl, rfl, rfl⟩, rfl⟩
    | true =>
      exact ⟨_, _, .single (.resizeRollback a old hp), ⟨rfl, rfl, rfl⟩, rfl⟩
  | unlock size old hi =>
    rw [hi] at hp ho
    exact ⟨[], a, .nil, ⟨hm, hp, ho⟩, rfl⟩
  | accept size old hi =>
    rw [hi] at hp ho
    exact ⟨_, _, .single (.resizeDone a old hp), ⟨hm, rfl, ho⟩, rfl⟩
  | refuse size old hi =>
    rw [hi] at hp ho
    exact ⟨[], a, .nil, ⟨hm, hp, ho⟩, rfl⟩
  | fail size old hi =>
    rw [hi] at hp ho
    exact ⟨[], a, .nil, ⟨hm, hp, ho⟩, rfl⟩
  | read bytes hl hb =>
    have hframes : framesOf ((published (readChunk E w.m w.o bytes).2).map (.published none)) =
        published (readChunk E w.m w.o bytes).2 := by
      unfold framesOf
      rw [List.filterMap_map]
      exact List.filterMap_some
    have hfree := half_free E a.o hl
    rw [hfree] at ho
    refine ⟨_, _, .single (.read a bytes hb), ⟨hm, hp, ?_⟩, ?_⟩
    · rw [half_free E _ hl, hm, ho]
    · rw [hframes, hm, ho]
  | subscribe info data hl hs =>
    have hfree := half_free E a.o hl
    rw [hfree] at ho
    refine ⟨_, _, .single (.subscribe a info data ?_), ⟨hm, hp, ?_⟩, rfl⟩
    · rw [hm, ← ho]
      exact hs
    · rw [hfree]
      exact ho

theorem mirrors_init (t : TerminalModel Term) (ringBytes : Nat) (m : SessionInfo) :
    Mirrors E (init t ringBytes m) (.init t ringBytes m) := ⟨rfl, rfl, rfl⟩

/-- A run of the calls is a run of the output side in which commits are atomic. -/
theorem run_refines {m : SessionInfo} {w : ResizeWorld Term}
    (h : Run (Step E) (init t ringBytes m) es w) :
    ∃ fs a, Run (OutputWorld.Step E) (.init t ringBytes m) fs a ∧ Mirrors E w a ∧
      published fs = framesOf es := by
  induction h with
  | nil => exact ⟨[], _, .nil, mirrors_init t ringBytes m, rfl⟩
  | snoc _ hs ih =>
    obtain ⟨fs, a, hrun, hm, hf⟩ := ih
    obtain ⟨gs, b, hrun', hm', hg⟩ := hs.refines hm
    refine ⟨fs ++ gs, b, hrun.trans hrun', hm', ?_⟩
    rw [published_append, framesOf_append, hf, hg]

/-- When the output lock is free, everything agrees on the size. -/
theorem run_agreed {m : SessionInfo} {t : TerminalModel Term} {w : ResizeWorld Term}
    (ht : t.size = m.size) (h : Run (Step E) (init t ringBytes m) es w) (hl : w.locked = false) :
    Agreed m.size (framesOf es) w.m w.o := by
  obtain ⟨fs, a, hrun, hmirrors, hf⟩ := run_refines h
  have hagreed := OutputWorld.run_agreed ht hrun
  have ho := hmirrors.output
  rw [half_free E a.o hl] at ho
  rw [← hf, ← hmirrors.info, ho]
  exact hagreed

end ResizeWorld

/-- The call published one RESIZE frame, and the size in force before it was `old`. -/
def Announced (first : Size) (c : Nat) (old : Size) (es : List ResizeEvent) : Prop :=
  ∃ before f more, es = before ++ .published (some c) f :: more ∧ resizesOf c es = [f] ∧
    inForce first (framesOf before) = sizePayload old

/-- The call published two RESIZE frames, and the second one restores the size in force before
the first. -/
def Restored (first : Size) (c : Nat) (es : List ResizeEvent) : Prop :=
  ∃ before f g more, es = before ++ .published (some c) f :: more ∧ resizesOf c es = [f, g] ∧
    g.payload = inForce first (framesOf before)

theorem Announced.append (h : Announced first c old es) (hn : resizesOf c e = []) :
    Announced first c old (es ++ e) := by
  obtain ⟨before, f, more, rfl, hr, hf⟩ := h
  refine ⟨before, f, more ++ e, by rw [List.append_assoc, List.cons_append], ?_, hf⟩
  rw [resizesOf_append, hr, hn, List.append_nil]

theorem Restored.append (h : Restored first c es) (hn : resizesOf c e = []) :
    Restored first c (es ++ e) := by
  obtain ⟨before, f, g, more, rfl, hr, hg⟩ := h
  refine ⟨before, f, g, more ++ e, by rw [List.append_assoc, List.cons_append], ?_, hg⟩
  rw [resizesOf_append, hr, hn, List.append_nil]

theorem Announced.restored (h : Announced first c old es) {g : Frame}
    (hg : resizesOf c [.published (some c) g] = [g]) (hp : g.payload = sizePayload old) :
    Restored first c (es ++ [.published (some c) g]) := by
  obtain ⟨before, f, more, rfl, hr, hf⟩ := h
  refine ⟨before, f, g, more ++ [.published (some c) g],
    by rw [List.append_assoc, List.cons_append], ?_, hp.trans hf.symm⟩
  rw [resizesOf_append, hr, hg]
  rfl

/-- The call has published no size and was not refused one. -/
def Untold (c : Nat) (es : List ResizeEvent) : Prop := resizesOf c es = [] ∧ .refused c ∉ es

/-- What the call with this number has published by each phase. -/
def Progressed (first : Size) (es : List ResizeEvent) (c : Nat) : Option ResizeCall → Prop
  | none => True
  | some ⟨_, .guarded⟩ => Untold c es
  | some ⟨_, .checked old⟩ => Untold c es ∧ inForce first (framesOf es) = sizePayload old
  | some ⟨_, .committing old false .published⟩ | some ⟨_, .resizing old⟩ =>
    Announced first c old es ∧ .refused c ∉ es
  | some ⟨_, .committing old false _⟩ =>
    Untold c es ∧ inForce first (framesOf es) = sizePayload old
  | some ⟨_, .committing _ true .published⟩ => Restored first c es
  | some ⟨_, .committing old true _⟩ => Announced first c old es

/-- The events that say nothing about the sizes. -/
structure Quiet (e : List ResizeEvent) : Prop where
  resizes : ∀ c, resizesOf c e = []
  refused : ∀ c, .refused c ∉ e
  frames : ∀ f ∈ framesOf e, f.kind = Frame.OUTPUT

theorem Untold.quiet (h : Untold c es) (hq : Quiet e) : Untold c (es ++ e) := by
  refine ⟨by rw [resizesOf_append, h.1, hq.resizes, List.append_nil], fun hm => ?_⟩
  exact (List.mem_append.1 hm).elim h.2 (hq.refused c)

theorem inForce_quiet (hq : Quiet e) :
    inForce first (framesOf (es ++ e)) = inForce first (framesOf es) := by
  rw [framesOf_append]
  exact inForce_output first _ hq.frames

theorem Progressed.quiet {inside : Option ResizeCall} (h : Progressed first es c inside)
    (hq : Quiet e) : Progressed first (es ++ e) c inside := by
  have hrefused (hn : .refused c ∉ es) : .refused c ∉ es ++ e := fun hm =>
    (List.mem_append.1 hm).elim hn (hq.refused c)
  have hannounced {old : Size} (h : Announced first c old es ∧ .refused c ∉ es) :
      Announced first c old (es ++ e) ∧ .refused c ∉ es ++ e :=
    ⟨h.1.append (hq.resizes c), hrefused h.2⟩
  have hread {old : Size} (h : Untold c es ∧ inForce first (framesOf es) = sizePayload old) :
      Untold c (es ++ e) ∧ inForce first (framesOf (es ++ e)) = sizePayload old :=
    ⟨h.1.quiet hq, (inForce_quiet hq).trans h.2⟩
  match inside with
  | none => exact trivial
  | some ⟨size, phase⟩ =>
    cases phase with
    | guarded => exact Untold.quiet h hq
    | checked old => exact hread h
    | resizing old => exact hannounced h
    | committing old rollback stage =>
      cases rollback with
      | false =>
        cases stage with
        | waiting | locked | applied => exact hread h
        | published => exact hannounced h
      | true =>
        cases stage with
        | waiting | locked | applied => exact Announced.append h (hq.resizes c)
        | published => exact Restored.append h (hq.resizes c)

/-- What all calls so far have published. -/
structure Told (first : Size) (es : List ResizeEvent) (w : ResizeWorld Term) : Prop where
  later : ∀ c, w.entered < c → Untold c es
  past : ∀ c, .refused c ∈ es → (c = w.entered → w.inside = none) → Restored first c es
  current : Progressed first es w.entered w.inside
  returned : ∀ c r, .returned c r ∈ es → c ≤ w.entered ∧ (c = w.entered → w.inside = none)

namespace Told
variable {w u : ResizeWorld Term}

theorem init (first : Size) (t : TerminalModel Term) (ringBytes : Nat) (m : SessionInfo) :
    Told first [] (ResizeWorld.init t ringBytes m) where
  later := fun _ _ => ⟨rfl, List.not_mem_nil⟩
  past := fun _ hm => (List.not_mem_nil hm).elim
  current := trivial
  returned := fun _ _ hm => (List.not_mem_nil hm).elim

/-- A step that adds events of the call inside only. -/
theorem extend (h : Told first es w) (he : u.entered = w.entered)
    (hown : ∀ c, c ≠ w.entered → Untold c e)
    (hc : Progressed first (es ++ e) w.entered u.inside)
    (hp : u.inside = none → .refused w.entered ∈ es ++ e → Restored first w.entered (es ++ e))
    (hr : ∀ c r, .returned c r ∈ e → c = w.entered ∧ u.inside = none)
    (hn : w.inside = none → u.inside = none) : Told first (es ++ e) u := by
  constructor
  · intro c hlt
    rw [he] at hlt
    obtain ⟨hres, href⟩ := h.later c hlt
    obtain ⟨hres', href'⟩ := hown c (Nat.ne_of_gt hlt)
    refine ⟨by rw [resizesOf_append, hres, hres', List.append_nil], fun hm => ?_⟩
    exact (List.mem_append.1 hm).elim href href'
  · intro c hm hinside
    by_cases heq : c = w.entered
    · rw [heq] at hm ⊢
      exact hp (hinside (heq.trans he.symm)) hm
    · obtain ⟨hres, href⟩ := hown c heq
      have hold := (List.mem_append.1 hm).resolve_right href
      exact (h.past c hold fun hc => absurd hc heq).append hres
  · rw [he]
    exact hc
  · intro c r hm
    rw [he]
    rcases List.mem_append.1 hm with hm | hm
    · obtain ⟨hle, hin⟩ := h.returned c r hm
      exact ⟨hle, fun heq => hn (hin heq)⟩
    · obtain ⟨heq, hin⟩ := hr c r hm
      exact ⟨Nat.le_of_eq heq, fun _ => hin⟩

theorem nil_untold (c : Nat) : Untold c [] := ⟨rfl, List.not_mem_nil⟩

/-- A step inside the call without events. -/
theorem silent (h : Told first es w) (he : u.entered = w.entered) (hi : u.inside = some call)
    (hn : w.inside = some call') (hc : Progressed first es w.entered (some call)) :
    Told first (es ++ []) u := by
  apply h.extend he (fun c _ => nil_untold c)
  · rw [List.append_nil, hi]
    exact hc
  · intro hnone
    rw [hi] at hnone
    cases hnone
  · exact fun _ _ hm => (List.not_mem_nil hm).elim
  · intro hnone
    rw [hn] at hnone
    cases hnone

theorem returned_quiet (c : Nat) (r : Except ErrorCode Unit) : Quiet [.returned c r] where
  resizes := fun _ => rfl
  refused := fun _ hm => nomatch List.mem_singleton.1 hm
  frames := fun _ hm => (List.not_mem_nil hm).elim

/-- The call returns. -/
theorem leave (h : Told first es w) (r : Except ErrorCode Unit)
    (hp : .refused w.entered ∈ es → Restored first w.entered es) :
    Told first (es ++ [.returned w.entered r]) w.leave := by
  have hq := returned_quiet w.entered r
  refine h.extend (u := w.leave) rfl (fun c _ => ⟨hq.resizes c, hq.refused c⟩) trivial ?_ ?_
    fun _ => rfl
  · intro _ hm
    have hold := (List.mem_append.1 hm).resolve_right (hq.refused _)
    exact (hp hold).append (hq.resizes _)
  · intro c r' hm
    cases List.mem_singleton.1 hm
    exact ⟨rfl, rfl⟩

/-- A step of the other threads. -/
theorem quiet (h : Told first es w) (hq : Quiet e) (he : u.entered = w.entered)
    (hi : u.inside = w.inside) (hr : ∀ c r, .returned c r ∉ e) : Told first (es ++ e) u := by
  apply h.extend he (fun c _ => ⟨hq.resizes c, hq.refused c⟩)
  · rw [hi]
    exact h.current.quiet hq
  · intro hnone hm
    have hold := (List.mem_append.1 hm).resolve_right (hq.refused _)
    exact (h.past _ hold fun _ => hi ▸ hnone).append (hq.resizes _)
  · exact fun c r hm => (hr c r hm).elim
  · exact fun hnone => hi.trans hnone

theorem resizes_own (hk : f.kind = Frame.RESIZE) : resizesOf c [.published (some c) f] = [f] := by
  simp only [resizesOf, List.filterMap_cons, ResizeEvent.resize?, hk, and_self, ↓reduceIte,
    List.filterMap_nil]

theorem resizes_other (hne : c ≠ d) : resizesOf c [.published (some d) f] = [] := by
  simp only [resizesOf, List.filterMap_cons, ResizeEvent.resize?, Ne.symm hne, false_and,
    ↓reduceIte, List.filterMap_nil]

theorem read_quiet (m : SessionInfo) (o : OutputState Term) (bytes : List UInt8) :
    Quiet ((published (readChunk E m o bytes).2).map (.published none)) where
  resizes := by
    intro c
    unfold resizesOf
    rw [List.filterMap_map, List.filterMap_eq_nil_iff]
    exact fun _ _ => rfl
  refused := by
    intro c hm
    obtain ⟨f, -, hf⟩ := List.mem_map.1 hm
    cases hf
  frames := by
    intro f hf
    unfold framesOf at hf
    rw [List.filterMap_map] at hf
    obtain ⟨g, hg, hfg⟩ := List.mem_filterMap.1 hf
    cases hfg
    exact published_readChunk o bytes f hg

theorem step (h : Told first es w) (ha : w.locked = false → Agreed first (framesOf es) w.m w.o)
    (hs : ResizeWorld.Step E w e u) : Told first (es ++ e) u := by
  have hcur := h.current
  cases hs with
  | enter size hi =>
    rw [List.append_nil]
    constructor
    · exact fun c hlt => h.later c (Nat.lt_of_succ_lt hlt)
    · intro c hm _
      have hlt : ¬ w.entered < c := fun hlt => (h.later c hlt).2 hm
      exact h.past c hm fun _ => hi
    · exact h.later (w.entered + 1) (Nat.lt_succ_self _)
    · intro c r hm
      have hle := (h.returned c r hm).1
      exact ⟨Nat.le_succ_of_le hle, fun heq => absurd (heq ▸ hle) (Nat.not_succ_le_self _)⟩
  | deny size e hi | same size hi hv hs =>
    rw [hi] at hcur
    exact h.leave _ fun hm => absurd hm hcur.2
  | closed size old hi =>
    rw [hi] at hcur
    exact h.leave _ fun hm => absurd hm hcur.1.2
  | accept size old hi =>
    rw [hi] at hcur
    exact h.leave _ fun hm => absurd hm hcur.2
  | fail size old hi =>
    rw [hi] at hcur
    exact h.leave _ fun _ => hcur
  | differ size hi hv hs =>
    rw [hi] at hcur
    have hfree : w.locked = false := by
      unfold ResizeWorld.locked
      rw [hi]
    refine h.silent rfl rfl hi ⟨hcur, ?_⟩
    exact (ha hfree).2
  | start size old hi =>
    rw [hi] at hcur
    exact h.silent rfl rfl hi hcur
  | lock size old rollback hi =>
    rw [hi] at hcur
    refine h.silent rfl rfl hi ?_
    cases rollback with
    | false => exact hcur
    | true => exact hcur
  | apply size old rollback hi =>
    rw [hi] at hcur
    refine h.silent rfl rfl hi ?_
    cases rollback with
    | false => exact hcur
    | true => exact hcur
  | unlock size old hi =>
    rw [hi] at hcur
    exact h.silent rfl rfl hi hcur
  | publish size old rollback hi =>
    rw [hi] at hcur
    refine h.extend rfl (fun c hne => ⟨resizes_other hne, fun hm => ?_⟩) ?_ nofun ?_ ?_
    · cases List.mem_singleton.1 hm
    · cases rollback with
      | false =>
        refine ⟨⟨es, _, [], rfl, ?_, hcur.2⟩, fun hm => ?_⟩
        · rw [resizesOf_append, hcur.1.1, resizes_own rfl]
          rfl
        · rcases List.mem_append.1 hm with hm | hm
          · exact hcur.1.2 hm
          · cases List.mem_singleton.1 hm
      | true => exact Announced.restored hcur (resizes_own rfl) rfl
    · intro c r hm
      cases List.mem_singleton.1 hm
    · intro hnone
      rw [hi] at hnone
      cases hnone
  | refuse size old hi =>
    rw [hi] at hcur
    refine h.extend rfl (fun c hne => ⟨rfl, fun hm => ?_⟩) ?_ nofun ?_ ?_
    · cases List.mem_singleton.1 hm
      exact hne rfl
    · exact hcur.1.append rfl
    · intro c r hm
      cases List.mem_singleton.1 hm
    · intro hnone
      rw [hi] at hnone
      cases hnone
  | read bytes hl hb =>
    refine h.quiet (read_quiet w.m w.o bytes) rfl rfl fun c r hm => ?_
    obtain ⟨f, -, hf⟩ := List.mem_map.1 hm
    cases hf
  | subscribe info data hl hs =>
    have hq : Quiet [.subscribed info data] :=
      ⟨fun _ => rfl, fun _ hm => (nomatch List.mem_singleton.1 hm),
        fun _ hm => (List.not_mem_nil hm).elim⟩
    refine h.quiet hq rfl rfl fun c r hm => ?_
    cases List.mem_singleton.1 hm

end Told

namespace ResizeWorld

/-- Whenever the output lock is free, the session record, the terminal model and the last RESIZE
frame agree on the size; and a resize that the PTY refuses publishes exactly two RESIZE frames,
of which the second restores the size in force before it. -/
theorem resize_agreement {m : SessionInfo} {t : TerminalModel Term} {w : ResizeWorld Term}
    (ht : t.size = m.size) (h : Run (Step E) (init t ringBytes m) es w) :
    (w.locked = false → Agreed m.size (framesOf es) w.m w.o) ∧
      ∀ c r, .refused c ∈ es → .returned c r ∈ es → Restored m.size c es := by
  refine ⟨run_agreed ht h, fun c r hrefused hreturned => ?_⟩
  have htold : Told m.size es w ∧ Run (Step E) (init t ringBytes m) es w := by
    apply h.invariant (I := fun es w =>
      Told m.size es w ∧ Run (Step E) (init t ringBytes m) es w)
    · exact ⟨.init _ t ringBytes m, .nil⟩
    · rintro es w e u ⟨hi, hrun⟩ hs
      exact ⟨hi.step (run_agreed ht hrun) hs, hrun.snoc hs⟩
  exact htold.1.past c hrefused (htold.1.returned c r hreturned).2

/-- The PTY refuses the first resize. -/
theorem resize_agreement_refused : ∃ es w,
    Run (Step OutputWorld.echo) (init (.new [] OutputWorld.shell.size) 4096 OutputWorld.shell)
        es w ∧
      w.m.size = OutputWorld.shell.size ∧
      Agreed OutputWorld.shell.size (framesOf es) w.m w.o ∧
      Restored OutputWorld.shell.size 1 es := by
  have hdiffer : OutputWorld.shell.size ≠ ⟨100, 30⟩ := by decide
  have hchecked := (Run.single (Step.enter (E := OutputWorld.echo)
    (init (.new [] OutputWorld.shell.size) 4096 OutputWorld.shell) ⟨100, 30⟩ rfl)).snoc
    (.differ _ ⟨100, 30⟩ rfl ⟨by decide, by decide⟩ hdiffer)
  have hcommitted := ((((hchecked.snoc (.start _ _ _ rfl)).snoc (.lock _ _ _ _ rfl)).snoc
    (.apply _ _ _ _ rfl)).snoc (.publish _ _ _ _ rfl)).snoc (.unlock _ _ _ rfl)
  have hrolled := ((((hcommitted.snoc (.refuse _ _ _ rfl)).snoc (.lock _ _ _ _ rfl)).snoc
    (.apply _ _ _ _ rfl)).snoc (.publish _ _ _ _ rfl)).snoc (.fail _ _ _ rfl)
  have hsize : (TerminalModel.new ([] : List UInt8) OutputWorld.shell.size).size =
      OutputWorld.shell.size := rfl
  obtain ⟨hagreed, hrestored⟩ := resize_agreement hsize hrolled
  refine ⟨_, _, hrolled, rfl, hagreed rfl, hrestored 1 (.error .internal) ?_ ?_⟩
  · exact List.mem_append_left _ (List.mem_append_left _ (List.mem_append_left _
      (List.mem_append_left _ (List.mem_append_right _ (List.mem_singleton_self _)))))
  · exact List.mem_append_right _ (List.mem_singleton_self _)

end ResizeWorld
end RemoteCodex
