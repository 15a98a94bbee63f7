import RemoteCodex.Lib.Decimal
import RemoteCodex.Agent.SessionFrames
import RemoteCodex.Client.FrameCodec
import RemoteCodex.Client.StreamGuard

namespace RemoteCodex
set_option autoImplicit true

/-- A text in which JSON escapes nothing. -/
def Plain (s : String) : Prop :=
  ∀ c ∈ s.toList, 0x20 ≤ c.toNat ∧ c.toNat < 0x7f ∧ c.toNat ≠ 0x22 ∧ c.toNat ≠ 0x5c

def plainUnit (c : Char) : Bool :=
  decide (0x20 ≤ c.toNat ∧ c.toNat < 0x7f ∧ c.toNat ≠ 0x22 ∧ c.toNat ≠ 0x5c)

theorem plain_of_all (h : s.toList.all plainUnit = true) : Plain s := by
  simpa only [Plain, List.all_eq_true, plainUnit, decide_eq_true_eq] using h

namespace SnapshotMeta

structure PlainTexts (info : SnapshotMeta) : Prop where
  fidelity : Plain info.fidelity
  warnings : ∀ s ∈ info.warnings, Plain s

def quoted (s : String) : String := "\"" ++ s ++ "\""

/-- A member of an object, after the first one. -/
def member (name value : String) : String := "," ++ quoted name ++ ":" ++ value

/-- The members in the order of the struct, without spaces. -/
def compactText (info : SnapshotMeta) : String :=
  "\x7b" ++ quoted "cols" ++ ":" ++ toString info.cols.toNat ++
    member "rows" (toString info.rows.toNat) ++
    member "sequence" (quoted (toString info.sequence.toNat)) ++
    member "generation" (toString info.generation.toNat) ++
    member "agent_epoch" (quoted info.agentEpoch.hyphenated) ++
    member "fidelity" (quoted info.fidelity) ++
    member "warnings" ("[" ++ ",".intercalate (info.warnings.map quoted) ++ "]") ++
    member "bytes" (toString info.bytes) ++ "\x7d"

def compact (info : SnapshotMeta) : List UInt8 :=
  info.compactText.toList.map fun c => UInt8.ofNat c.toNat

/-- The object that the text stands for. -/
def toJs (info : SnapshotMeta) : Js.Value :=
  .object
    [(Js.str "cols", .number (.finite info.cols.toNat)),
      (Js.str "rows", .number (.finite info.rows.toNat)),
      (Js.str "sequence", .string (Js.str (toString info.sequence.toNat))),
      (Js.str "generation", .number (.finite info.generation.toNat)),
      (Js.str "agent_epoch", .string (Js.str info.agentEpoch.hyphenated)),
      (Js.str "fidelity", .string (Js.str info.fidelity)),
      (Js.str "warnings", .array (info.warnings.map fun s => .string (Js.str s))),
      (Js.str "bytes", .number (.finite info.bytes))]

end SnapshotMeta

/-- What is used of the two JSON libraries: `serde_json::to_vec` writes the compact text, and
`JSON.parse` reads it as the object. -/
structure JsonText (rt : Client.Runtime) (json : SnapshotMeta → List UInt8) (info : SnapshotMeta) :
    Prop where
  writes : info.PlainTexts → json info = info.compact
  reads : info.PlainTexts → rt.parse info.compact = some info.toJs

/-- The description of a snapshot of a session. -/
structure SnapshotMeta.Described (info : SnapshotMeta) : Prop where
  size : (⟨info.cols, info.rows⟩ : Size).Valid
  fidelity : info.fidelity = "experimental_vt_snapshot"
  warnings : info.warnings = [experimental]
  bytes : info.bytes ≤ MAX_SNAPSHOT

namespace SnapshotMeta

variable {info : SnapshotMeta}

theorem Described.plainTexts (h : info.Described) : info.PlainTexts := by
  constructor
  · rw [h.fidelity]
    exact plain_of_all (by decide)
  · intro s hs
    rw [h.warnings, List.mem_singleton] at hs
    subst hs
    exact plain_of_all (by decide)

theorem toString_length {n k : Nat} (hk : 0 < k) (h : n < 10 ^ k) :
    (toString n).length ≤ k := by
  rw [← String.length_toList, Nat.toString_eq_ofList_toDigits, String.toList_ofList]
  exact (Nat.length_toDigits_le_iff (by decide) hk).2 h

theorem hyphenated_length (u : Uuid) : u.hyphenated.length = 36 := by
  have h := congrArg List.length (Client.str_hyphenated u)
  rwa [Js.str, List.length_map, String.length_toList, Client.groups_length] at h

theorem quoted_length (s : String) : (quoted s).length = s.length + 2 := by
  have hquote : "\"".length = 1 := rfl
  rw [quoted, String.length_append, String.length_append, hquote]
  omega

theorem member_length (name value : String) :
    (member name value).length = name.length + value.length + 4 := by
  have hcomma : ",".length = 1 := rfl
  have hcolon : ":".length = 1 := rfl
  simp only [member, String.length_append, quoted_length, hcomma, hcolon]
  omega

/-- A description fits into what the client reads. -/
theorem Described.compact_length (h : info.Described) : info.compact.length ≤ 16384 := by
  have hcols : (toString info.cols.toNat).length ≤ 5 :=
    toString_length (by decide) (by have := info.cols.toNat_lt; omega)
  have hrows : (toString info.rows.toNat).length ≤ 5 :=
    toString_length (by decide) (by have := info.rows.toNat_lt; omega)
  have hsequence : (toString info.sequence.toNat).length ≤ 20 :=
    toString_length (by decide) (by have := info.sequence.toNat_lt; omega)
  have hgeneration : (toString info.generation.toNat).length ≤ 10 :=
    toString_length (by decide) (by have := info.generation.toNat_lt; omega)
  have hbytes : (toString info.bytes).length ≤ 7 :=
    toString_length (by decide) (by have := h.bytes; simp only [MAX_SNAPSHOT] at this; omega)
  have hwarning : (",".intercalate [quoted experimental]).length ≤ 200 := by
    rw [String.intercalate_singleton, quoted_length]
    decide +kernel
  have hfidelity : info.fidelity.length ≤ 24 := by
    rw [h.fidelity]
    decide +kernel
  have hnames : ("cols".length = 4 ∧ "rows".length = 4 ∧ "sequence".length = 8 ∧
      "generation".length = 10 ∧ "agent_epoch".length = 11 ∧ "fidelity".length = 8 ∧
      "warnings".length = 8 ∧ "bytes".length = 5) := by decide +kernel
  have hmarks : "\x7b".length = 1 ∧ "\x7d".length = 1 ∧ "[".length = 1 ∧ "]".length = 1 ∧
      ":".length = 1 := by decide +kernel
  rw [compact, List.length_map, String.length_toList]
  delta compactText
  simp only [h.warnings, List.map_cons, List.map_nil, String.length_append,
    quoted_length, member_length, hyphenated_length, hnames, hmarks]
  omega

/-- The description passes the checks of the client. -/
theorem Described.describes (h : info.Described) {rt : Client.Runtime} {s : Client.Stream}
    {f : Client.TerminalFrame} (hg : s.generation = .finite info.generation.toNat)
    (he : s.agentEpoch = Js.str info.agentEpoch.hyphenated)
    (hf : f.sequence = info.sequence.toNat) : s.Describes rt f info.toJs info.bytes := by
  constructor
  · rw [he]
    rfl
  · refine ⟨.finite info.generation.toNat, rfl, ?_⟩
    rw [hg]
    exact decide_eq_true rfl
  · have hseq : info.toJs.prop (Js.str "sequence") =
        some (.string (Js.str (toString info.sequence.toNat))) := rfl
    rw [hseq, Js.bigInt, Js.stringToBigInt_toString, hf]
  · exact ⟨info.cols.toNat, rfl, h.size.cols⟩
  · exact ⟨info.rows.toNat, rfl, h.size.rows⟩
  · exact ⟨rfl, h.bytes⟩
  · exact ⟨_, rfl⟩
  · exact ⟨_, rfl⟩

end SnapshotMeta
end RemoteCodex
