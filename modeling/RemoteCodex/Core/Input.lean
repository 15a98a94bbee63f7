import RemoteCodex.Lib.Table
import RemoteCodex.Core.Protocol

namespace RemoteCodex
set_option autoImplicit true

/-- Per-session replay guard. -/
structure InputLedger where
  highest : AList fun _ : Uuid × Nat => Nat
  ids : List Uuid
  outcomes : AList fun _ : Uuid => String
  limit : Nat

namespace InputLedger

def default : InputLedger := ⟨∅, [], ∅, 1024⟩

/-- The loop that drops the oldest ids while there are more than the limit. -/
def evict (limit : Nat) : List Uuid → (AList fun _ : Uuid => String) →
    List Uuid × (AList fun _ : Uuid => String)
  | [], outcomes => ([], outcomes)
  | x :: ids, outcomes =>
    if limit < (x :: ids).length then evict limit ids (outcomes.erase x)
    else (x :: ids, outcomes)

def acceptLimit (l : InputLedger) (connection : Uuid) (lease : Nat) (id : Uuid)
    (seq bytes max : Nat) : Except ErrorCode Unit × InputLedger :=
  if bytes = 0 ∨ max < bytes ∨ seq = 0 ∨ MAX_JS_INTEGER < seq then (.error .frameTooLarge, l)
  else if (l.outcomes.lookup id).isSome ∨
      (l.highest.lookup (connection, lease)).any (fun s => decide (seq ≤ s)) then
    (.error .duplicateInput, l)
  else
    let highest := (Table.retain (fun k _ => decide (k.1 = connection) && decide (k.2 = lease))
      l.highest).insert (connection, lease) seq
    let kept := evict l.limit (l.ids ++ [id]) (l.outcomes.insert id "accepted")
    (.ok (), { l with highest, ids := kept.1, outcomes := kept.2 })

def accept (l : InputLedger) (connection : Uuid) (lease : Nat) (id : Uuid) (seq bytes : Nat) :
    Except ErrorCode Unit × InputLedger :=
  l.acceptLimit connection lease id seq bytes MAX_INPUT

def acceptPaste (l : InputLedger) (connection : Uuid) (lease : Nat) (id : Uuid)
    (seq bytes : Nat) : Except ErrorCode Unit × InputLedger :=
  l.acceptLimit connection lease id seq bytes MAX_PASTE

def finish (l : InputLedger) (id : Uuid) (status : String) : InputLedger :=
  match l.outcomes.lookup id with
  | some _ => { l with outcomes := l.outcomes.replace id status }
  | none => l

def status (l : InputLedger) (id : Uuid) : Option String := l.outcomes.lookup id

@[simp] theorem finish_highest (l : InputLedger) (id : Uuid) (status : String) :
    (l.finish id status).highest = l.highest := by
  unfold finish
  split <;> rfl

/-- An accepted sequence is above the highest one recorded for its connection and lease, and
becomes it; a refused one changes nothing. -/
theorem acceptLimit_cases {id : Uuid} {max : Nat}
    (h : acceptLimit l connection lease id seq bytes max = (r, l')) :
    (∃ e, r = .error e ∧ l' = l) ∨
    (r = .ok () ∧ 0 < bytes ∧ bytes ≤ max ∧ 0 < seq ∧ seq ≤ MAX_JS_INTEGER ∧
      (∀ s, l.highest.lookup (connection, lease) = some s → s < seq) ∧
      l'.highest.lookup (connection, lease) = some seq) := by
  unfold acceptLimit at h
  split at h
  · cases h
    exact .inl ⟨_, rfl, rfl⟩
  · next hb =>
    split at h
    · cases h
      exact .inl ⟨_, rfl, rfl⟩
    · next hd =>
      cases h
      simp only [not_or, Nat.not_lt] at hb hd
      refine .inr ⟨rfl, by omega, hb.2.1, by omega, hb.2.2.2, ?_, AList.lookup_insert _⟩
      intro s hs
      have hd' := hd.2
      simp only [hs, Option.any_some, decide_eq_true_eq] at hd'
      omega

theorem acceptLimit_error {id : Uuid} {max : Nat}
    (h : acceptLimit l connection lease id seq bytes max = (.error e, l')) : l' = l := by
  rcases acceptLimit_cases h with ⟨_, _, hl⟩ | ⟨hr, _⟩
  · exact hl
  · cases hr

end InputLedger
end RemoteCodex
