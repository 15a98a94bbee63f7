import Mathlib.Data.List.Chain
import Mathlib.Data.List.Perm.Subperm
import RemoteCodex.Lib.Mealy
import RemoteCodex.Core.Input

namespace RemoteCodex
set_option autoImplicit true
namespace InputLedger

/-- The operations that change the ledger. -/
inductive Op where
  | accept (connection : Uuid) (lease : Nat) (id : Uuid) (seq bytes : Nat)
  | acceptPaste (connection : Uuid) (lease : Nat) (id : Uuid) (seq bytes : Nat)
  | finish (id : Uuid) (status : String)

def perform (l : InputLedger) : Op → Except ErrorCode Unit × InputLedger
  | .accept connection lease id seq bytes => l.accept connection lease id seq bytes
  | .acceptPaste connection lease id seq bytes => l.acceptPaste connection lease id seq bytes
  | .finish id status => (.ok (), l.finish id status)

/-- The connection, lease and sequence number of an input. -/
abbrev Entry := (Uuid × Nat) × Nat

def Op.entry : Op → List Entry
  | .accept connection lease _ seq _ | .acceptPaste connection lease _ seq _ =>
    [((connection, lease), seq)]
  | .finish .. => []

/-- One operation, with the input it accepts. -/
def step (l : InputLedger) (op : Op) : InputLedger × List Entry :=
  match l.perform op with
  | (.ok (), l') => (l', op.entry)
  | (.error _, l') => (l', [])

/-- The ledger with one more input. -/
def record (l : InputLedger) (connection : Uuid) (lease : Nat) (id : Uuid) (seq : Nat) :
    InputLedger :=
  let kept := evict l.limit (l.ids ++ [id]) (l.outcomes.insert id "accepted")
  { l with
    highest := (Table.retain (fun k _ => decide (k.1 = connection) && decide (k.2 = lease))
      l.highest).insert (connection, lease) seq
    ids := kept.1
    outcomes := kept.2 }

theorem acceptLimit_record {id : Uuid} {max : Nat}
    (h : acceptLimit l connection lease id seq bytes max = (r, l')) :
    (∃ e, r = .error e ∧ l' = l) ∨
    (r = .ok () ∧ id ∉ l.outcomes ∧
      (∀ s, l.highest.lookup (connection, lease) = some s → s < seq) ∧
      l' = l.record connection lease id seq) := by
  rcases acceptLimit_cases h with he | ⟨hr, -, -, -, -, hlow, -⟩
  · exact .inl he
  · unfold acceptLimit at h
    split at h
    · rw [hr] at h
      cases h
    · split at h
      · rw [hr] at h
        cases h
      · next hd =>
        cases h
        rw [not_or, AList.lookup_isSome] at hd
        exact .inr ⟨rfl, hd.1, hlow, rfl⟩

/-- An operation records an input that the ledger accepts, sets the outcome of one, or changes
nothing. -/
theorem step_cases (l : InputLedger) (op : Op) :
    (∃ connection lease id seq, id ∉ l.outcomes ∧
      (∀ s, l.highest.lookup (connection, lease) = some s → s < seq) ∧
      l.step op = (l.record connection lease id seq, [((connection, lease), seq)])) ∨
    (∃ id status, l.step op = (l.finish id status, [])) ∨ l.step op = (l, []) := by
  have haccept {connection : Uuid} {lease : Nat} {id : Uuid} {seq bytes max : Nat}
      (hp : l.perform op = l.acceptLimit connection lease id seq bytes max)
      (he : op.entry = [((connection, lease), seq)]) :
      (id ∉ l.outcomes ∧ (∀ s, l.highest.lookup (connection, lease) = some s → s < seq) ∧
        l.step op = (l.record connection lease id seq, [((connection, lease), seq)])) ∨
      l.step op = (l, []) := by
    cases ha : l.acceptLimit connection lease id seq bytes max with | mk r l' =>
    unfold step
    rw [hp, ha, he]
    rcases acceptLimit_record ha with ⟨e, rfl, rfl⟩ | ⟨rfl, hid, hlow, rfl⟩
    · exact .inr rfl
    · exact .inl ⟨hid, hlow, rfl⟩
  cases op with
  | accept connection lease id seq bytes | acceptPaste connection lease id seq bytes =>
    rcases haccept rfl rfl with hok | hno
    · exact .inl ⟨connection, lease, id, seq, hok⟩
    · exact .inr (.inr hno)
  | finish id status => exact .inr (.inl ⟨id, status, rfl⟩)

/-- A refused operation changes nothing. -/
theorem perform_error (h : perform l op = (.error e, l')) : l' = l := by
  cases op with
  | accept | acceptPaste => exact acceptLimit_error h
  | finish => cases h

variable {ids : List Uuid} {outcomes : AList fun _ : Uuid => String} {id : Uuid}

/-- The queue of ids and the table of outcomes list the same inputs. -/
structure Tracks (ids : List Uuid) (outcomes : AList fun _ : Uuid => String) : Prop where
  nodup : ids.Nodup
  keys : ∀ id, id ∈ ids ↔ id ∈ outcomes

theorem Tracks.push (h : Tracks ids outcomes) (hid : id ∉ outcomes) (status : String) :
    Tracks (ids ++ [id]) (outcomes.insert id status) where
  nodup := by
    apply h.nodup.append (List.nodup_singleton id)
    intro x hx hx'
    rw [List.mem_singleton.1 hx'] at hx
    exact hid ((h.keys id).1 hx)
  keys := by
    intro x
    rw [List.mem_append, List.mem_singleton, AList.mem_insert, h.keys x, or_comm]

theorem Tracks.pop (h : Tracks (x :: ids) outcomes) : Tracks ids (outcomes.erase x) where
  nodup := (List.nodup_cons.1 h.nodup).2
  keys := by
    intro id
    have hx : x ∉ ids := (List.nodup_cons.1 h.nodup).1
    rw [AList.mem_erase, ← h.keys id, List.mem_cons]
    constructor
    · intro hid
      refine ⟨?_, .inr hid⟩
      rintro rfl
      exact hx hid
    · rintro ⟨hne, heq | hid⟩
      · exact absurd heq hne
      · exact hid

theorem Tracks.evict (h : Tracks ids outcomes) (limit : Nat) :
    Tracks (evict limit ids outcomes).1 (evict limit ids outcomes).2 ∧
      (InputLedger.evict limit ids outcomes).1.length ≤ limit := by
  induction ids generalizing outcomes with
  | nil => exact ⟨h, Nat.zero_le limit⟩
  | cons x ids ih =>
    unfold InputLedger.evict
    split
    · exact ih h.pop
    · next hle => exact ⟨h, Nat.le_of_not_lt hle⟩

/-- The sequence numbers of one connection and lease rise from one accepted input to the next. -/
def Rises (accepted : List Entry) : Prop := accepted.IsChain fun a b => a.1 = b.1 → a.2 < b.2

/-- The ledger after some inputs were accepted, the last one last. -/
structure Records (l : InputLedger) (accepted : List Entry) : Prop where
  limit : l.limit = 1024
  tracks : Tracks l.ids l.outcomes
  bounded : l.ids.length ≤ 1024
  single : Table.size l.highest ≤ 1
  highest : ∀ key s, l.highest.lookup key = some s ↔ accepted.getLast? = some (key, s)
  rises : Rises accepted

theorem records_default : Records default [] where
  limit := rfl
  tracks := ⟨List.nodup_nil, fun _ => iff_of_false (List.not_mem_nil) (AList.notMem_empty _)⟩
  bounded := Nat.zero_le _
  single := Nat.zero_le _
  highest := fun _ _ => iff_of_false nofun nofun
  rises := .nil

/-- Once the other leases are gone, the highest sequence number is that of the new input. -/
theorem lookup_record (l : InputLedger) (connection : Uuid) (lease : Nat) (id : Uuid) (seq : Nat)
    (key : Uuid × Nat) :
    (l.record connection lease id seq).highest.lookup key =
      if key = (connection, lease) then some seq else none := by
  have hgone (hne : key ≠ (connection, lease)) :
      (decide (key.1 = connection) && decide (key.2 = lease)) = false := by
    rw [Bool.and_eq_false_iff, decide_eq_false_iff_not, decide_eq_false_iff_not]
    by_contra! hc
    exact hne (Prod.ext hc.1 hc.2)
  simp only [record, Table.lookup_insert, Table.lookup_retain]
  split
  · rfl
  · next hne =>
    rw [Option.filter_eq_none_iff]
    intro s _
    simp only [hgone hne, Bool.false_eq_true, not_false_eq_true]

theorem size_record (l : InputLedger) (connection : Uuid) (lease : Nat) (id : Uuid) (seq : Nat) :
    Table.size (l.record connection lease id seq).highest ≤ 1 := by
  apply Table.size_le_one (k := (connection, lease))
  intro key hkey
  obtain ⟨s, hs⟩ := Option.isSome_iff_exists.1 (AList.lookup_isSome.2 hkey)
  rw [lookup_record] at hs
  by_contra hne
  rw [if_neg hne] at hs
  cases hs

theorem Records.record (h : Records l accepted) (hid : id ∉ l.outcomes)
    (hlow : ∀ s, l.highest.lookup (connection, lease) = some s → s < seq) :
    Records (l.record connection lease id seq) (accepted ++ [((connection, lease), seq)]) := by
  obtain ⟨htracks, hlen⟩ := (h.tracks.push hid "accepted").evict l.limit
  refine ⟨h.limit, htracks, hlen.trans_eq h.limit, size_record .., ?_, ?_⟩
  · intro key s
    rw [lookup_record, List.getLast?_concat]
    split
    · next heq => simp only [heq, Option.some.injEq, Prod.mk.injEq, true_and]
    · next hne => simp only [reduceCtorEq, Option.some.injEq, Prod.mk.injEq, Ne.symm hne, false_and]
  · apply h.rises.append (.singleton _)
    intro a ha b hb hkey
    cases hb
    have hkey' : a.1 = (connection, lease) := hkey
    have hlast : accepted.getLast? = some ((connection, lease), a.2) := by
      rw [← hkey']
      exact ha
    exact hlow a.2 ((h.highest _ _).2 hlast)

theorem Records.finish (h : Records l accepted) (id : Uuid) (status : String) :
    Records (l.finish id status) accepted := by
  unfold InputLedger.finish
  split
  · refine ⟨h.limit, ⟨h.tracks.nodup, ?_⟩, h.bounded, h.single, h.highest, h.rises⟩
    intro x
    rw [AList.mem_replace, h.tracks.keys]
  · exact h

theorem Records.step (h : Records l accepted) (op : Op) :
    Records (l.step op).1 (accepted ++ (l.step op).2) := by
  rcases l.step_cases op with ⟨connection, lease, id, seq, hid, hlow, hs⟩ | ⟨id, status, hs⟩ | hs
  · rw [hs]
    exact h.record hid hlow
  · rw [hs, List.append_nil]
    exact h.finish id status
  · rw [hs, List.append_nil]
    exact h

theorem Records.run (h : Records l accepted) (ops : List Op) :
    Records (Mealy.run InputLedger.step l ops).1
      (accepted ++ (Mealy.run InputLedger.step l ops).2) := by
  induction ops generalizing l accepted with
  | nil => rwa [Mealy.run_nil, List.append_nil]
  | cons op ops ih =>
    have hrest := ih (h.step op)
    rwa [List.append_assoc] at hrest

/-- Within one connection and lease all sequence numbers rise. -/
theorem Rises.pairwise (h : Rises accepted) (hkey : ∀ a ∈ accepted, a.1 = key) :
    (accepted.map Prod.snd).Pairwise (· < ·) := by
  rw [← List.isChain_iff_pairwise, List.isChain_map]
  apply h.imp_of_mem_imp
  intro a b ha hb hab
  exact hab ((hkey a ha).trans (hkey b hb).symm)

/-- The ledger after some operations. -/
def reached (ops : List Op) : InputLedger := (Mealy.run step default ops).1

/-- The inputs that some operations accept, in order. -/
def accepts (ops : List Op) : List Entry := (Mealy.run step default ops).2

theorem records_reached (ops : List Op) : Records (reached ops) (accepts ops) :=
  records_default.run ops

/-- An input has a status exactly while its id is in the queue. -/
theorem status_isSome_iff (ops : List Op) (id : Uuid) :
    ((reached ops).status id).isSome = true ↔ id ∈ (reached ops).ids := by
  rw [status, AList.lookup_isSome, (records_reached ops).tracks.keys]

/-- After any operations the queue and the table of outcomes list the same inputs, 1024 at most,
and one connection and lease is remembered; a refusal changes nothing; and while one connection
and lease is accepted from, the sequence numbers rise. -/
theorem ledger_consistent (ops : List Op) :
    ((reached ops).ids.Nodup ∧ (∀ id, id ∈ (reached ops).ids ↔ id ∈ (reached ops).outcomes.keys) ∧
        (reached ops).ids.length ≤ 1024 ∧ (reached ops).highest.keys.length ≤ 1) ∧
      (∀ op e l', (reached ops).perform op = (.error e, l') → l' = reached ops) ∧
      ∀ key stretch, stretch <:+: accepts ops → (∀ a ∈ stretch, a.1 = key) →
        (stretch.map Prod.snd).Pairwise (· < ·) := by
  have h := records_reached ops
  refine ⟨⟨h.tracks.nodup, h.tracks.keys, h.bounded, ?_⟩, fun op e l' => perform_error, ?_⟩
  · rw [AList.keys, List.keys, List.length_map]
    exact h.single
  · intro key stretch hs hkey
    have hr : Rises stretch := h.rises.infix hs
    exact hr.pairwise hkey

end InputLedger
end RemoteCodex
