import Mathlib.Algebra.GroupWithZero.Nat
import Mathlib.Data.List.AList

namespace Table
set_option autoImplicit true

variable {κ ν μ : Type}

/-- Keep the entries that satisfy a predicate. -/
def retain (p : κ → ν → Bool) (t : AList fun _ : κ => ν) : AList fun _ : κ => ν :=
  ⟨t.entries.filter fun e => p e.1 e.2, t.nodupKeys.sublist List.filter_sublist⟩

/-- Apply a function to every value. -/
def mapValues (f : κ → ν → μ) (t : AList fun _ : κ => ν) : AList fun _ : κ => μ :=
  ⟨t.entries.map fun e => ⟨e.1, f e.1 e.2⟩, t.nodupKeys.map₂ f⟩

def size (t : AList fun _ : κ => ν) : Nat := t.entries.length

theorem size_retain_le (p : κ → ν → Bool) (t : AList fun _ : κ => ν) :
    size (retain p t) ≤ size t :=
  List.length_filter_le ..

theorem size_le_one {t : AList fun _ : κ => ν} (h : ∀ k' ∈ t, k' = k) : size t ≤ 1 := by
  have hkeys : t.keys ⊆ [k] := fun k' hk => List.mem_singleton.2 (h k' hk)
  have hle := (List.subperm_of_subset t.keys_nodup hkeys).length_le
  rwa [AList.keys, List.keys, List.length_map] at hle

/-- The sum of a quantity over the values. -/
def total (f : ν → Nat) (t : AList fun _ : κ => ν) : Nat := (t.entries.map fun e => f e.2).sum

variable [DecidableEq κ]

theorem sum_kerase (f : ν → Nat) (k : κ) (l : List (Sigma fun _ : κ => ν)) :
    ((l.kerase k).map fun e => f e.2).sum + (l.dlookup k).elim 0 f =
      (l.map fun e => f e.2).sum := by
  induction l with
  | nil => rfl
  | cons e l ih =>
    obtain ⟨k', v⟩ := e
    by_cases h : k = k'
    · subst h
      have hrest : List.kerase k (⟨k, v⟩ :: l) = l := List.kerase_cons_eq rfl
      rw [hrest, List.dlookup_cons_eq, Option.elim_some, List.map_cons, List.sum_cons, Nat.add_comm]
    · rw [List.kerase_cons_ne h, List.dlookup_cons_ne l _ h, List.map_cons, List.sum_cons,
        Nat.add_assoc, ih, List.map_cons, List.sum_cons]

/-- The new value counts in place of the one before. -/
theorem total_insert (f : ν → Nat) (t : AList fun _ : κ => ν) (k : κ) (v : ν) :
    total f (t.insert k v) + (t.lookup k).elim 0 f = total f t + f v := by
  have h := sum_kerase f k t.entries
  rw [total, AList.entries_insert, List.map_cons, List.sum_cons, Nat.add_assoc]
  exact (congrArg (f v + ·) h).trans (Nat.add_comm ..)

theorem size_insert_of_mem {t : AList fun _ : κ => ν} (h : k ∈ t) (v : ν) :
    size (t.insert k v) = size t := by
  unfold size
  rw [AList.entries_insert, List.length_cons]
  obtain ⟨w, before, after, -, hentries, hrest⟩ := List.exists_of_kerase h
  rw [hrest, hentries, List.length_append, List.length_append, List.length_cons, Nat.add_assoc]

theorem lookup_retain (p : κ → ν → Bool) (t : AList fun _ : κ => ν) (k : κ) :
    (retain p t).lookup k = (t.lookup k).filter (p k) := by
  cases h : t.lookup k with
  | none =>
    have hk : k ∉ t.entries.keys := List.dlookup_eq_none.1 h
    have hr : k ∉ (t.entries.filter fun e => p e.1 e.2).keys :=
      fun hm => hk ((List.filter_sublist.map Sigma.fst).subset hm)
    exact List.dlookup_eq_none.2 hr
  | some v =>
    have hm : ⟨k, v⟩ ∈ t.entries := List.of_mem_dlookup h
    cases hp : p k v with
    | true =>
      have hf : ⟨k, v⟩ ∈ (retain p t).entries := List.mem_filter.2 ⟨hm, hp⟩
      have hl : (retain p t).lookup k = some v := List.mem_dlookup (retain p t).nodupKeys hf
      simp only [hl, Option.filter, hp, ↓reduceIte]
    | false =>
      have hr : k ∉ (t.entries.filter fun e => p e.1 e.2).keys := by
        intro hk
        obtain ⟨w, hw⟩ := List.mem_keys.1 hk
        obtain ⟨hw, hpw⟩ := List.mem_filter.1 hw
        rw [t.nodupKeys.eq_of_mk_mem hw hm, hp] at hpw
        cases hpw
      have hl : (retain p t).lookup k = none := List.dlookup_eq_none.2 hr
      simp only [hl, Option.filter, hp, Bool.false_eq_true, ↓reduceIte]

/-- What is kept was there before, and satisfies the predicate. -/
theorem lookup_of_retain {p : κ → ν → Bool} {t : AList fun _ : κ => ν} {k : κ} {v : ν}
    (h : (retain p t).lookup k = some v) : t.lookup k = some v ∧ p k v = true := by
  rwa [lookup_retain, Option.filter_eq_some_iff] at h

theorem lookup_mapValues (f : κ → ν → μ) (t : AList fun _ : κ => ν) (k : κ) :
    (mapValues f t).lookup k = (t.lookup k).map (f k) :=
  List.dlookup_map₂ k

/-- Inserting decides one key and leaves the others. -/
theorem lookup_insert (t : AList fun _ : κ => ν) (k k' : κ) (v : ν) :
    (t.insert k v).lookup k' = if k' = k then some v else t.lookup k' := by
  split
  · next h => subst h; exact AList.lookup_insert t
  · next h => exact AList.lookup_insert_ne h

theorem lookup_erase (t : AList fun _ : κ => ν) (k k' : κ) :
    (t.erase k).lookup k' = if k' = k then none else t.lookup k' := by
  split
  · next h => subst h; exact AList.lookup_erase k' t
  · next h => exact AList.lookup_erase_ne h

theorem size_insert_le (t : AList fun _ : κ => ν) (k : κ) (v : ν) :
    size (t.insert k v) ≤ size t + 1 := by
  unfold size
  rw [AList.entries_insert, List.length_cons]
  exact Nat.succ_le_succ (List.kerase_sublist ..).length_le

theorem size_erase_le (t : AList fun _ : κ => ν) (k : κ) : size (t.erase k) ≤ size t :=
  (List.kerase_sublist ..).length_le

/-- `pop_first`, the entry with the least key leaves the table. -/
def popFirst [Min κ] (t : AList fun _ : κ => ν) : AList fun _ : κ => ν :=
  match t.keys.min? with
  | none => t
  | some k => t.erase k

/-- Pop entries, `n` of them at most, while the size reaches the bound. -/
def evict [Min κ] (bound : Nat) : Nat → (AList fun _ : κ => ν) → AList fun _ : κ => ν
  | 0, t => t
  | n + 1, t => if bound ≤ size t then evict bound n (popFirst t) else t

variable [Min κ]

theorem size_popFirst [Std.MinEqOr κ] {t : AList fun _ : κ => ν} (h : size t ≠ 0) :
    size (popFirst t) + 1 = size t := by
  unfold popFirst
  split
  · next hnone =>
    have hnil : t.entries.map Sigma.fst = [] := List.min?_eq_none_iff.1 hnone
    exact absurd (congrArg List.length (List.map_eq_nil_iff.1 hnil)) h
  · next k hk =>
    obtain ⟨v, before, after, -, ht, herase⟩ := List.exists_of_kerase (List.min?_mem hk)
    show (t.entries.kerase k).length + 1 = t.entries.length
    rw [herase, ht, List.length_append, List.length_append, List.length_cons, Nat.add_assoc]

theorem size_evict [Std.MinEqOr κ] {b : Nat} (hb : 0 < b) {t : AList fun _ : κ => ν} {n : Nat}
    (h : size t ≤ n) : size (evict b n t) < b := by
  induction n generalizing t with
  | zero => exact Nat.lt_of_le_of_lt h hb
  | succ n ih =>
    unfold evict
    split
    · next hbound =>
      have hpop := size_popFirst (t := t) (Nat.ne_of_gt (Nat.lt_of_lt_of_le hb hbound))
      exact ih (by omega)
    · next hbound => exact Nat.lt_of_not_le hbound

theorem lookup_popFirst {t : AList fun _ : κ => ν} (h : (popFirst t).lookup k = some v) :
    t.lookup k = some v := by
  unfold popFirst at h
  split at h
  · exact h
  · rw [lookup_erase] at h
    split at h
    · cases h
    · exact h

/-- Nothing new is found after an eviction. -/
theorem lookup_evict {t : AList fun _ : κ => ν} {bound n : Nat}
    (h : (evict bound n t).lookup k = some v) : t.lookup k = some v := by
  induction n generalizing t with
  | zero => exact h
  | succ n ih =>
    unfold evict at h
    split at h
    · exact lookup_popFirst (ih h)
    · exact h

end Table
