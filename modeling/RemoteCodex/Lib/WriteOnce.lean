import RemoteCodex.Lib.Table

/-! Tables in which a key keeps the value that it was first given. -/

namespace WriteOnce
set_option autoImplicit true

variable {κ ν : Type} [DecidableEq κ]

/-- Whatever the first table says is also said by the second one. -/
def Extends (t t' : AList fun _ : κ => ν) : Prop :=
  ∀ k v, t.lookup k = some v → t'.lookup k = some v

theorem Extends.refl (t : AList fun _ : κ => ν) : Extends t t := fun _ _ h => h

/-- Give a value to a key, unless the key has another one. -/
def enter [DecidableEq ν] (t : AList fun _ : κ => ν) (k : κ) (v : ν) :
    Option (AList fun _ : κ => ν) :=
  match t.lookup k with
  | some old => if old ≠ v then none else some t
  | none => some (t.insert k v)

variable [DecidableEq ν] {t t' : AList fun _ : κ => ν}

theorem enter_lookup (h : enter t k v = some t') : t'.lookup k = some v := by
  unfold enter at h
  split at h
  · next old hold =>
    split at h
    · cases h
    · next heq =>
      cases h
      rw [hold, not_not.1 heq]
  · cases h
    exact AList.lookup_insert t

theorem enter_extends (h : enter t k v = some t') : Extends t t' := by
  intro k' w hw
  unfold enter at h
  split at h
  · split at h
    · cases h
    · cases h
      exact hw
  · next hnone =>
    cases h
    rw [Table.lookup_insert, if_neg, hw]
    intro heq
    rw [heq, hnone] at hw
    cases hw

end WriteOnce
