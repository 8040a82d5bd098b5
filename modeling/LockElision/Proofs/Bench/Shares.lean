import LockElision.Bench.Run
import Mathlib.Algebra.Order.BigOperators.Group.Finset
import Mathlib.Algebra.Ring.Nat

/-!
# Shares

The timed operations of a plan are split among its threads without a remainder, so adding up what
the threads did yields the number planned, and no partial sum is more.
-/

namespace LockElision

namespace Plan

variable {p : Plan}

theorem sum_split (base rest j : Nat) :
    (∑ t ∈ Finset.range j, (base + if t < rest then 1 else 0)) = j * base + min j rest := by
  induction j with
  | zero => simp
  | succ j ih =>
    rw [Finset.sum_range_succ, ih, Nat.succ_mul]
    split <;> omega

theorem toNat_share (hp : p.threads ≠ 0) (t : UInt64) : (p.share t).toNat =
    p.iterations.toNat / p.threads.toNat +
      if t.toNat < p.iterations.toNat % p.threads.toNat then 1 else 0 := by
  have hlt : (t < p.iterations % p.threads) ↔
      t.toNat < p.iterations.toNat % p.threads.toNat := by
    rw [UInt64.lt_iff_toNat_lt, UInt64.toNat_mod]
  have hthreads : 0 < p.threads.toNat := Nat.pos_of_ne_zero fun h => hp (UInt64.toNat.inj h)
  have hsplit := Nat.div_add_mod p.iterations.toNat p.threads.toNat
  have hbase := Nat.le_mul_of_pos_left (p.iterations.toNat / p.threads.toNat) hthreads
  have hmax := p.iterations.toNat_lt
  simp only [share, if_neg hp, hlt]
  rw [UInt64.toNat_add, UInt64.toNat_div]
  split
  · rw [show (1 : UInt64).toNat = 1 from rfl, Nat.mod_eq_of_lt (by omega)]
  · rw [show (0 : UInt64).toNat = 0 from rfl, Nat.mod_eq_of_lt (by omega)]

theorem toNat_share_ofNat (hp : p.threads ≠ 0) {t : Nat} (ht : t < p.threads.toNat) :
    (p.share (UInt64.ofNat t)).toNat = p.iterations.toNat / p.threads.toNat +
      if t < p.iterations.toNat % p.threads.toNat then 1 else 0 := by
  rw [toNat_share hp, UInt64.toNat_ofNat_of_lt' (Nat.lt_trans ht p.threads.toNat_lt)]

/-- **All shares together** are the operations planned. -/
theorem sum_share (hp : p.threads ≠ 0) :
    (∑ t ∈ Finset.range p.threads.toNat, (p.share (UInt64.ofNat t)).toNat) =
      p.iterations.toNat := by
  have hthreads : 0 < p.threads.toNat := Nat.pos_of_ne_zero fun h => hp (UInt64.toNat.inj h)
  have hrest := Nat.mod_lt p.iterations.toNat hthreads
  rw [Finset.sum_congr rfl fun t ht => toNat_share_ofNat hp (Finset.mem_range.mp ht), sum_split,
    Nat.min_eq_right (Nat.le_of_lt hrest), Nat.div_add_mod]

theorem sum_share_le (hp : p.threads ≠ 0) {j : Nat} (hj : j ≤ p.threads.toNat) :
    (∑ t ∈ Finset.range j, (p.share (UInt64.ofNat t)).toNat) ≤ p.iterations.toNat := by
  rw [← sum_share hp]
  exact Finset.sum_le_sum_of_subset (Finset.range_mono hj)

theorem share_antitone (hp : p.threads ≠ 0) {s t : UInt64} (h : s ≤ t) : p.share t ≤ p.share s := by
  rw [UInt64.le_iff_toNat_le] at h ⊢
  rw [toNat_share hp, toNat_share hp]
  split <;> split <;> omega

theorem share_le_succ (hp : p.threads ≠ 0) (s t : UInt64) :
    (p.share s).toNat ≤ (p.share t).toNat + 1 := by
  rw [toNat_share hp, toNat_share hp]
  split <;> omega

theorem share_zero_pos (hp : p.threads ≠ 0) (hi : p.iterations ≠ 0) : 0 < (p.share 0).toNat := by
  have hiterations : 0 < p.iterations.toNat :=
    Nat.pos_of_ne_zero fun h => hi (UInt64.toNat.inj h)
  have hsplit := Nat.div_add_mod p.iterations.toNat p.threads.toNat
  rw [toNat_share hp, show (0 : UInt64).toNat = 0 from rfl]
  by_cases hrest : 0 < p.iterations.toNat % p.threads.toNat
  · rw [if_pos hrest]; exact Nat.succ_pos _
  · rw [Nat.eq_zero_of_not_pos hrest, Nat.add_zero] at hsplit
    rw [← hsplit] at hiterations
    exact Nat.lt_of_lt_of_le (Nat.pos_of_mul_pos_left hiterations) (Nat.le_add_right ..)

theorem addUp_ok (shares : List UInt64) : ∀ worker total : UInt64,
    total.toNat + (shares.map UInt64.toNat).sum < 2 ^ 64 →
    ∃ sum, addUp worker total (shares.map .ok) = .ok sum ∧
      sum.toNat = total.toNat + (shares.map UInt64.toNat).sum := by
  induction shares with
  | nil => exact fun _ _ _ => ⟨_, rfl, rfl⟩
  | cons n shares ih =>
    intro worker total h
    rw [List.map_cons, List.sum_cons] at h
    rw [show (n :: shares).map UInt64.toNat = n.toNat :: shares.map UInt64.toNat from rfl,
      List.sum_cons]
    have hn : (total + n).toNat = total.toNat + n.toNat := by
      rw [UInt64.toNat_add, Nat.mod_eq_of_lt (by omega)]
    obtain ⟨sum, hsum, htotal⟩ := ih (worker + 1) (total + n) (by omega)
    exact ⟨sum, hsum, by omega⟩

/-- In 64 bits too, all shares together are the operations planned. -/
theorem addUp_shares (hp : p.threads ≠ 0) :
    addUp 0 0 (((List.range p.threads.toNat).map fun t => p.share (UInt64.ofNat t)).map .ok) =
      .ok p.iterations := by
  have hsum : (((List.range p.threads.toNat).map fun t => p.share (UInt64.ofNat t)).map
      UInt64.toNat).sum = p.iterations.toNat := by
    rw [List.map_map]
    exact sum_share hp
  have hzero : (0 : UInt64).toNat = 0 := rfl
  have hlt := p.iterations.toNat_lt
  obtain ⟨sum, he, htotal⟩ := addUp_ok _ 0 0 (by rw [hsum, hzero]; omega)
  rw [he]
  refine congrArg Except.ok (UInt64.toNat.inj ?_)
  rw [htotal, hsum, hzero, Nat.zero_add]

end Plan

end LockElision
