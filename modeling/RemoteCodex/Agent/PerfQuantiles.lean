import Mathlib.Data.Rat.Floor
import Mathlib.Algebra.Order.Floor.Semiring
import RemoteCodex.Lib.Ranks
import RemoteCodex.Agent.TraceWriter

namespace RemoteCodex
set_option autoImplicit true
namespace Perf
namespace Histogram

/-- The answer for the bucket numbered `idx`. -/
def edge (h : Histogram) (idx : Nat) : UInt64 :=
  if idx = bucketCount - 1 then h.maxUs
  else min (UInt64.ofNat (idx * bucketWidth + (bucketWidth - 1))) h.maxUs

/-- The loop over the buckets, from the one numbered `idx` on. -/
def reach (h : Histogram) (rank : Nat) : Nat → Nat → List Nat → UInt64
  | _, _, [] => h.maxUs
  | idx, cumulative, b :: buckets =>
    if rank ≤ cumulative + b then h.edge idx
    else h.reach rank (idx + 1) (cumulative + b) buckets

/-- The product is exact here. -/
def upperQuantile (h : Histogram) (p : ℚ) : Option UInt64 :=
  if h.count = 0 then none
  else
    let rank := min (max ⌈p * h.count⌉₊ 1) h.count
    some (h.reach rank 0 0 h.buckets)

example : (([0, 99, 100, 100000, 200000] : List UInt64).foldl record new).upperQuantile (1 / 2) =
    some 199 := by decide +kernel

/-- The bucket of a sample; the last one takes all that are too long. -/
def bucket (us : UInt64) : Nat := min (us.toNat / bucketWidth) (bucketCount - 1)

/-- The histogram of some samples. -/
structure Holds (h : Histogram) (samples : List UInt64) : Prop where
  count : h.count = samples.length
  buckets : h.buckets = Ranks.tally bucket bucketCount samples
  upper : ∀ us ∈ samples, us ≤ h.maxUs
  attained : h.maxUs ∈ 0 :: samples

theorem holds_new : Holds new [] where
  count := rfl
  buckets := (Ranks.tally_nil bucket bucketCount).symm
  upper := fun _ hus => absurd hus List.not_mem_nil
  attained := List.mem_singleton_self 0

theorem Holds.record (h : Holds g samples) (us : UInt64) :
    Holds (g.record us) (samples ++ [us]) where
  count := by rw [count_record, h.count, List.length_append, List.length_singleton]
  buckets := by
    rw [Ranks.tally_concat, ← h.buckets]
    rfl
  upper := by
    intro x hx
    simp only [Histogram.record]
    rcases List.mem_append.1 hx with hx | hx
    · have hmax := h.upper x hx
      split
      · next hlt => exact UInt64.le_trans hmax (UInt64.le_of_lt hlt)
      · exact hmax
    · rw [List.mem_singleton.1 hx]
      split
      · exact UInt64.le_refl us
      · next hle => exact UInt64.not_lt.1 hle
  attained := by
    simp only [Histogram.record]
    split
    · exact List.mem_cons_of_mem _ (List.mem_append_right _ (List.mem_singleton_self us))
    · exact List.mem_append_left [us] h.attained

/-- The histogram in which some samples were recorded. -/
def recorded (samples : List UInt64) : Histogram := samples.foldl Histogram.record new

theorem holds_recorded (samples : List UInt64) : Holds (recorded samples) samples := by
  have hfold {g : Histogram} {before : List UInt64} (h : Holds g before) :
      Holds (samples.foldl Histogram.record g) (before ++ samples) := by
    induction samples generalizing g before with
    | nil => rwa [List.append_nil]
    | cons us samples ih =>
      have hrest := ih (h.record us)
      rwa [List.append_assoc] at hrest
  exact hfold holds_new

theorem Holds.max_mem (h : Holds g samples) (hne : samples ≠ []) : g.maxUs ∈ samples := by
  rcases List.mem_cons.1 h.attained with hzero | hmem
  · obtain ⟨us, samples, rfl⟩ := List.exists_cons_of_ne_nil hne
    have hle := h.upper us (List.mem_cons_self ..)
    rw [hzero] at hle ⊢
    have hus : us = 0 := UInt64.le_antisymm hle UInt64.zero_le
    rw [← hus]
    exact List.mem_cons_self ..
  · exact hmem

theorem bucket_lt (us : UInt64) : bucket us < bucketCount :=
  Nat.lt_of_le_of_lt (Nat.min_le_right _ _) (by decide)

theorem bucket_mono {a b : UInt64} (h : a ≤ b) : bucket a ≤ bucket b := by
  have hdiv : a.toNat / bucketWidth ≤ b.toNat / bucketWidth :=
    Nat.div_le_div_right (UInt64.le_iff_toNat_le.1 h)
  unfold bucket
  omega

theorem Holds.sum_buckets (h : Holds g samples) : g.buckets.sum = samples.length := by
  rw [h.buckets]
  exact Ranks.sum_tally samples fun us _ => bucket_lt us

/-- The loop stops at the bucket at which the cumulative count reaches the rank. -/
theorem reach_edge (h : Histogram) (idx : Nat) {rank cumulative : Nat} {buckets : List Nat}
    (hlow : cumulative < rank) (hhigh : rank ≤ cumulative + buckets.sum) :
    ∃ i < buckets.length, cumulative + (buckets.take i).sum < rank ∧
      rank ≤ cumulative + (buckets.take (i + 1)).sum ∧
      h.reach rank idx cumulative buckets = h.edge (idx + i) := by
  induction buckets generalizing idx cumulative with
  | nil =>
    rw [List.sum_nil] at hhigh
    omega
  | cons b buckets ih =>
    unfold reach
    split
    · next hle =>
      refine ⟨0, Nat.zero_lt_succ _, hlow, ?_, rfl⟩
      simpa using hle
    · next hlt =>
      rw [List.sum_cons, ← Nat.add_assoc] at hhigh
      obtain ⟨i, hi, hbelow, habove, heq⟩ := ih (idx + 1) (Nat.lt_of_not_le hlt) hhigh
      refine ⟨i + 1, Nat.succ_lt_succ hi, ?_, ?_, ?_⟩
      · rwa [List.take_succ_cons, List.sum_cons, ← Nat.add_assoc]
      · rwa [List.take_succ_cons, List.sum_cons, ← Nat.add_assoc]
      · rw [heq, Nat.add_assoc, Nat.add_comm 1 i]

/-- The answer for the bucket of a sample is close above the sample. -/
theorem edge_bucket (h : Histogram) {us : UInt64} (hle : us ≤ h.maxUs) :
    us ≤ h.edge (bucket us) ∧ h.edge (bucket us) ≤ h.maxUs ∧
      (us.toNat < 100000 → (h.edge (bucket us)).toNat ≤ us.toNat + 99) := by
  unfold edge
  split
  · next hlast =>
    refine ⟨hle, UInt64.le_refl _, ?_⟩
    intro hshort
    simp only [bucket, bucketWidth, bucketCount] at hlast
    omega
  · next hinner =>
    have hbucket : bucket us = us.toNat / 100 := by
      simp only [bucket, bucketWidth, bucketCount] at hinner ⊢
      omega
    have hnat : (UInt64.ofNat (bucket us * bucketWidth + (bucketWidth - 1))).toNat =
        us.toNat / 100 * 100 + 99 := by
      rw [UInt64.toNat_ofNat', hbucket]
      apply Nat.mod_eq_of_lt
      have hlt := bucket_lt us
      rw [hbucket] at hlt
      simp only [bucketWidth, bucketCount] at hlt ⊢
      omega
    refine ⟨?_, Std.min_le_right, ?_⟩
    · rw [Std.le_min_iff, UInt64.le_iff_toNat_le, hnat]
      exact ⟨by omega, hle⟩
    · intro _
      have hmin := UInt64.le_iff_toNat_le.1 (Std.min_le_left
        (a := UInt64.ofNat (bucket us * bucketWidth + (bucketWidth - 1))) (b := h.maxUs))
      omega

theorem buckets_sorted (samples : List UInt64) :
    (samples.mergeSort (· ≤ ·)).Pairwise fun a b => bucket a ≤ bucket b := by
  have htrans (a b c : UInt64) (hab : decide (a ≤ b) = true) (hbc : decide (b ≤ c) = true) :
      decide (a ≤ c) = true :=
    decide_eq_true (UInt64.le_trans (of_decide_eq_true hab) (of_decide_eq_true hbc))
  have htotal (a b : UInt64) : (decide (a ≤ b) || decide (b ≤ a)) = true := by
    rw [Bool.or_eq_true, decide_eq_true_eq, decide_eq_true_eq]
    exact UInt64.le_total a b
  exact (List.pairwise_mergeSort htrans htotal samples).imp fun hab =>
    bucket_mono (of_decide_eq_true hab)

theorem rank_mem {n : Nat} {p : ℚ} (hn : 0 < n) (hp : 0 < p) (hp₁ : p ≤ 1) :
    0 < ⌈p * n⌉₊ ∧ ⌈p * n⌉₊ ≤ n := by
  have hn' : (0 : ℚ) < n := Nat.cast_pos.2 hn
  exact ⟨Nat.ceil_pos.2 (mul_pos hp hn'), Nat.ceil_le.2 (mul_le_of_le_one_left hn'.le hp₁)⟩

/-- The answer is that for the bucket of the ranked sample. -/
theorem Holds.upperQuantile_eq (h : Holds g samples) {p : ℚ} (hlow : 0 < ⌈p * samples.length⌉₊)
    (hhigh : ⌈p * samples.length⌉₊ ≤ samples.length) :
    ∃ ranked ∈ samples, (samples.mergeSort (· ≤ ·))[⌈p * samples.length⌉₊ - 1]? = some ranked ∧
      g.upperQuantile p = some (g.edge (bucket ranked)) := by
  have hcount : g.count ≠ 0 := by
    rw [h.count]
    omega
  unfold Histogram.upperQuantile
  rw [if_neg hcount]
  simp only [h.count]
  rw [Nat.max_eq_left hlow, Nat.min_eq_left hhigh]
  revert hlow hhigh
  generalize ⌈p * samples.length⌉₊ = rank
  intro hlow hhigh
  have hperm := List.mergeSort_perm samples (· ≤ ·)
  have hk : rank - 1 < (samples.mergeSort (· ≤ ·)).length := by
    rw [hperm.length_eq]
    omega
  have hsum : rank ≤ 0 + g.buckets.sum := by rwa [Nat.zero_add, h.sum_buckets]
  obtain ⟨i, hi, hbelow, habove, hreach⟩ := g.reach_edge 0 hlow hsum
  have hlen : g.buckets.length = bucketCount := by
    rw [h.buckets]
    exact Ranks.length_tally bucket bucketCount samples
  rw [hlen] at hi
  rw [Nat.zero_add, h.buckets, Ranks.sum_take_tally samples (Nat.le_of_lt hi)] at hbelow
  rw [Nat.zero_add, h.buckets, Ranks.sum_take_tally samples (k := i + 1) hi] at habove
  have hbucket := Ranks.bucket_eq hperm (buckets_sorted samples) (i := i) (k := rank - 1)
    (by omega) (by omega) hk
  refine ⟨_, hperm.subset (List.getElem_mem hk), List.getElem?_eq_getElem hk, ?_⟩
  rw [hreach, Nat.zero_add, hbucket]

/-- The buckets hold all samples, and a quantile is bounded from both sides by the samples: it is
not below the sample of its rank, not above the longest one, and within a bucket of the sample
of its rank unless that is one of the longest. -/
theorem upperQuantile_bounds (samples : List UInt64) (hne : samples ≠ []) (p : ℚ) (hp : 0 < p)
    (hp₁ : p ≤ 1) :
    (recorded samples).buckets.sum = samples.length ∧
      ∃ q ranked, (recorded samples).upperQuantile p = some q ∧
        (samples.mergeSort (· ≤ ·))[⌈p * samples.length⌉₊ - 1]? = some ranked ∧
        ranked ≤ q ∧ (∃ most ∈ samples, (∀ us ∈ samples, us ≤ most) ∧ q ≤ most) ∧
        (ranked.toNat < 100000 → q.toNat ≤ ranked.toNat + 99) := by
  have h := holds_recorded samples
  obtain ⟨hlow, hhigh⟩ := rank_mem (List.length_pos_iff.2 hne) hp hp₁
  obtain ⟨ranked, hmem, hranked, hq⟩ := h.upperQuantile_eq hlow hhigh
  obtain ⟨hge, hle, hclose⟩ := (recorded samples).edge_bucket (h.upper ranked hmem)
  exact ⟨h.sum_buckets, _, ranked, hq, hranked, hge, ⟨_, h.max_mem hne, h.upper, hle⟩, hclose⟩

/-- The median of five samples. -/
theorem upperQuantile_bounds_five :
    (recorded [0, 99, 100, 100000, 200000]).buckets.sum = 5 ∧
      ∃ q ranked, (recorded [0, 99, 100, 100000, 200000]).upperQuantile (1 / 2) = some q ∧
        (List.mergeSort [0, 99, 100, 100000, 200000] (· ≤ ·))[⌈(1 / 2 : ℚ) * (5 : ℕ)⌉₊ - 1]? =
          some ranked ∧
        ranked ≤ q ∧
        (∃ most ∈ [0, 99, 100, 100000, 200000],
          (∀ us ∈ [0, 99, 100, 100000, 200000], us ≤ most) ∧ q ≤ most) ∧
        (ranked.toNat < 100000 → q.toNat ≤ ranked.toNat + 99) :=
  upperQuantile_bounds [0, 99, 100, 100000, 200000] (List.cons_ne_nil _ _) (1 / 2) (by norm_num)
    (by norm_num)

end Histogram
end Perf
end RemoteCodex
