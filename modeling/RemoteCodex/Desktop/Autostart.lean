import RemoteCodex.Lib.CommandLine
import RemoteCodex.Lib.Wide
import RemoteCodex.Desktop.Serve

namespace RemoteCodex
set_option autoImplicit true
open Crash Js
namespace Desktop

inductive AutostartStatus where
  | disabled
  | enabled
  | conflict
  deriving DecidableEq

/-- A path, whose text is missing when it is not Unicode. -/
structure HostPath where
  absolute : Bool
  text : Option String

/-- The command that the logon of the user runs. -/
def command (agent config : HostPath) : Except String String :=
  if ¬ agent.absolute ∨ ¬ config.absolute then
    .error "Agent and config paths must be absolute"
  else
    match agent.text, config.text with
    | none, _ => .error "Agent path is not Unicode"
    | some _, none => .error "Config path is not Unicode"
    | some agent, some config =>
      if (agent.toList ++ config.toList).any fun c =>
          c = '"' ∨ c = '\r' ∨ c = '\n' ∨ c = '\x00' then
        .error "Autostart paths contain an unsupported character"
      else .ok ("\"" ++ agent ++ "\" --config \"" ++ config ++ "\" run")

def classify (stored : Option String) (expected : String) : AutostartStatus :=
  match stored with
  | none => .disabled
  | some value => if value = expected then .enabled else .conflict

def mayRemove (stored : Option String) (expected : String) : Bool := stored == some expected

def REG_SZ : Nat := 1

/-- A value of the registry. -/
structure RunValue where
  kind : Nat
  bytes : List UInt8

/-- What `read` makes of the value of the autostart key, if there is one. -/
def readRun : Option RunValue → Except String (Option String)
  | none => .ok none
  | some v =>
    if v.kind ≠ REG_SZ ∨ v.bytes.length < 2 ∨ 32 * 1024 < v.bytes.length ∨
        v.bytes.length % 2 ≠ 0 then
      .error "Autostart value has an unsupported type or size"
    else
      let value := Wide.unitsOf v.bytes
      if value.getLast? ≠ some 0 then .error "Autostart value is not terminated"
      else
        match Wide.fromUtf16 value.dropLast with
        | none => .error "Autostart value is not valid UTF-16"
        | some s => .ok (some (String.ofList s))

/-- The value that `write` sets. -/
def RunValue.of (value : String) : RunValue := ⟨REG_SZ, Wide.bytes (utf16 value.toList ++ [0])⟩

/-- A host with the autostart value of its user. -/
structure Machine where
  host : Host
  run : Option RunValue

/-- The points at which a call touches the host or the autostart value. -/
inductive Spot where
  | serve (p : Point)
  | paths
  | status
  | stored
  | write
  | delete
  | result
  deriving DecidableEq

abbrev Task (α : Type) := Proc Spot Machine α

/-- A call that touches only the host. -/
def Task.of (c : Call α) : Task α := fun f m =>
  ((c (fun p => f (.serve p)) m.host).1, { m with host := (c (fun p => f (.serve p)) m.host).2 })

def registryRead (p : Spot) : Task (Option String) := Proc.read p fun m => readRun m.run

def registryWrite (value : String) : Task Unit :=
  Proc.act .write fun m => { m with run := some (.of value) }

def registryDelete : Task Unit := Proc.act .delete fun m => { m with run := none }

def autostartStatus (p : Spot) (agent config : HostPath) : Task AutostartStatus := do
  let expected ← Proc.ofExcept (command agent config)
  let stored ← registryRead p
  return classify stored expected

def setEnabled (agent config : HostPath) (enabled : Bool) : Task AutostartStatus := do
  let expected ← Proc.ofExcept (command agent config)
  let stored ← registryRead .stored
  if enabled then
    match classify stored expected with
    | .disabled => registryWrite expected
    | .enabled => pure ()
    | .conflict => Proc.fail "A different autostart value is present; it was preserved"
  else if mayRemove stored expected then registryDelete
  else if stored.isSome then
    Proc.fail "The autostart value does not exactly match RemoteCodex; it was preserved"
  else pure ()
  autostartStatus .result agent config

/-- A path that may stand in the command. -/
structure Plain (path : HostPath) (t : String) : Prop where
  absolute : path.absolute = true
  text : path.text = some t
  quote : '"' ∉ t.toList

theorem command_eq (h : command agent config = .ok line) : ∃ a c, Plain agent a ∧ Plain config c ∧
    line = "\"" ++ a ++ "\" --config \"" ++ c ++ "\" run" := by
  unfold command at h
  split at h
  · cases h
  next habsolute =>
  rw [not_or, not_not, not_not] at habsolute
  split at h
  · cases h
  · cases h
  next a c ha hc =>
    split at h
    · cases h
    next hplain =>
      cases h
      have hquote (x : Char) (hx : x ∈ a.toList ++ c.toList) : x ≠ '"' := by
        rintro rfl
        exact hplain (List.any_eq_true.2 ⟨_, hx, by decide⟩)
      exact ⟨a, c, ⟨habsolute.1, ha, fun hm => hquote _ (List.mem_append_left _ hm) rfl⟩,
        ⟨habsolute.2, hc, fun hm => hquote _ (List.mem_append_right _ hm) rfl⟩, rfl⟩

theorem command_chars (a c : String) :
    ("\"" ++ a ++ "\" --config \"" ++ c ++ "\" run").toList =
      '"' :: (a.toList ++ '"' :: ' ' :: ("--config".toList ++ ' ' :: '"' ::
        (c.toList ++ '"' :: ' ' :: "run".toList))) := by
  have hquote : "\"".toList = ['"'] := by decide
  have hconfig : "\" --config \"".toList = '"' :: ' ' :: ("--config".toList ++ [' ', '"']) := by
    decide
  have hrun : "\" run".toList = '"' :: ' ' :: "run".toList := by decide
  simp only [String.toList_append, hquote, hconfig, hrun, List.append_assoc, List.cons_append,
    List.nil_append]

/-- Up to the quote after them the two texts are the same. -/
theorem append_quote {s t u v : List Char} (hs : '"' ∉ s) (ht : '"' ∉ t)
    (h : s ++ '"' :: u = t ++ '"' :: v) : s = t ∧ u = v := by
  induction s generalizing t with
  | nil =>
    cases t with
    | nil => exact ⟨rfl, (List.cons.inj h).2⟩
    | cons x t => exact absurd (List.cons.inj h).1 fun he => ht (he ▸ List.mem_cons_self)
  | cons x s ih =>
    cases t with
    | nil => exact absurd (List.cons.inj h).1 fun he => hs (he ▸ List.mem_cons_self)
    | cons y t =>
      obtain ⟨rfl, h'⟩ := List.cons.inj h
      obtain ⟨rfl, hv⟩ := ih (fun hm => hs (List.mem_cons_of_mem _ hm))
        (fun hm => ht (List.mem_cons_of_mem _ hm)) h'
      exact ⟨rfl, hv⟩

/-- The command is split into the program and its arguments unless the path of the configuration
ends with a backslash. -/
theorem command_argv (h : command agent config = .ok line) (ha : agent.text = some a)
    (hc : config.text = some c) :
    CommandLine.argv line.toList = [a.toList, "--config".toList, c.toList, "run".toList] ↔
      c.toList.getLast? ≠ some '\\' := by
  obtain ⟨a', c', hagent, hconfig, rfl⟩ := command_eq h
  cases ha.symm.trans hagent.text
  cases hc.symm.trans hconfig.text
  rw [command_chars, CommandLine.argv, CommandLine.program, if_pos rfl, Bool.not_false,
    CommandLine.program_quoted hagent.quote, CommandLine.program, if_neg (by decide),
    if_pos ⟨rfl, rfl⟩]
  simp only [List.append_nil]
  rw [CommandLine.arguments_bare (by decide) (by decide), CommandLine.arguments_blank,
    CommandLine.arguments_open, List.nil_append]
  rcases CommandLine.arguments_quoted hconfig.quote "run".toList with
    ⟨hlast, he⟩ | ⟨hlast, first, others, hne, he⟩
  · have hbare : CommandLine.Bare "run".toList := by decide
    have hrun := CommandLine.arguments_bare hbare (by decide) true [] []
    rw [List.append_nil, List.nil_append] at hrun
    rw [he, hrun, CommandLine.arguments, if_neg (by decide)]
    exact iff_of_true rfl hlast
  · rw [he]
    refine iff_of_false (fun hsame => hne ?_) fun hno => hno hlast
    exact (List.cons.inj (List.cons.inj (List.cons.inj hsame).2).2).1

/-- The command tells the two paths apart from any others. -/
theorem command_inj (h : command agent config = .ok line)
    (h' : command agent' config' = .ok line) :
    agent'.text = agent.text ∧ config'.text = config.text := by
  obtain ⟨a, c, ha, hc, hline⟩ := command_eq h
  obtain ⟨a', c', ha', hc', hline'⟩ := command_eq h'
  have hchars := congrArg String.toList (hline.symm.trans hline')
  rw [command_chars, command_chars] at hchars
  obtain ⟨hagent, hrest⟩ := append_quote ha.quote ha'.quote (List.cons.inj hchars).2
  have hrest' := List.append_cancel_left (List.cons.inj hrest).2
  obtain ⟨hconfig, -⟩ := append_quote hc.quote hc'.quote
    (List.cons.inj (List.cons.inj hrest').2).2
  rw [ha.text, hc.text, ha'.text, hc'.text, String.toList_inj.1 hagent, String.toList_inj.1 hconfig]
  exact ⟨rfl, rfl⟩

/-- A value that was written is read again, if it is not too long to be read. -/
theorem readRun_of (value : String) :
    readRun (some (.of value)) = .ok (some value) ↔ (utf16 value.toList).length ≤ 16383 := by
  have hlen : (RunValue.of value).bytes.length = 2 * ((utf16 value.toList).length + 1) := by
    rw [RunValue.of, Wide.bytes_length, List.length_append, List.length_singleton]
  unfold readRun
  simp only [hlen]
  by_cases hmax : (utf16 value.toList).length ≤ 16383
  · rw [if_neg]
    · have hunits : Wide.unitsOf (RunValue.of value).bytes = utf16 value.toList ++ [0] :=
        Wide.unitsOf_bytes _
      simp only [hunits, List.getLast?_concat, List.dropLast_concat, Wide.fromUtf16_utf16,
        String.ofList_toList, ne_eq, not_true, if_false]
      exact iff_of_true trivial hmax
    · rintro (hkind | hrest)
      · exact hkind rfl
      · omega
  · rw [if_pos (.inr (.inr (.inl (by omega))))]
    exact iff_of_false nofun hmax

/-- The autostart command is split into the paths that it was made of, unless the path of the
configuration ends with a backslash; no other paths have the same command; and the registry gives
it back exactly when it has room for it. -/
theorem command_round_trip (h : command agent config = .ok line) (ha : agent.text = some a)
    (hc : config.text = some c) :
    (CommandLine.argv line.toList = [a.toList, "--config".toList, c.toList, "run".toList] ↔
      c.toList.getLast? ≠ some '\\') ∧
    (∀ agent' config', command agent' config' = .ok line →
      agent'.text = agent.text ∧ config'.text = config.text) ∧
    (readRun (some (.of line)) = .ok (some line) ↔ (utf16 line.toList).length ≤ 16383) :=
  ⟨command_argv h ha hc, fun _ _ h' => command_inj h h', readRun_of line⟩

/-- A path with a blank, and one that ends with a backslash. -/
theorem command_round_trip_backslash :
    CommandLine.argv "\"C:\\a b.exe\" --config \"C:\\\" run".toList ≠
      ["C:\\a b.exe".toList, "--config".toList, "C:\\".toList, "run".toList] := by
  have h : command ⟨true, some "C:\\a b.exe"⟩ ⟨true, some "C:\\"⟩ =
      .ok "\"C:\\a b.exe\" --config \"C:\\\" run" := by decide
  exact fun he => (command_round_trip h rfl rfl).1.1 he (by decide)

end Desktop
end RemoteCodex
