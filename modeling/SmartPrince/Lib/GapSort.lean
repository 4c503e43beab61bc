import Mathlib.Logic.Equiv.Basic
import Mathlib.Order.Defs.LinearOrder
import SmartPrince.Lib.Loop

/-! # Sorting with gaps

The sort of an array in place that moves each entry down by a gap as long as it
is the smaller, with gaps that are halved to one. Each exchange rearranges the
array, and the pass with the gap of one sorts it whatever the passes before. -/
namespace SmartPrince.Lib.GapSort
open SmartPrince.Lib.Loop

variable {α κ : Type*}

/-! ## Arrays rearranged -/

/-- The first `n` entries in another order. -/
def Rearranged (n : Nat) (a b : Nat → α) : Prop :=
  ∃ σ : Equiv.Perm Nat, (∀ x, n ≤ x → σ x = x) ∧ ∀ x, b x = a (σ x)

variable {n : Nat} {a b c : Nat → α}

theorem Rearranged.refl (n : Nat) (a : Nat → α) : Rearranged n a a := ⟨Equiv.refl Nat, fun _ _ => rfl, fun _ => rfl⟩

theorem Rearranged.trans (h : Rearranged n a b) (h' : Rearranged n b c) : Rearranged n a c := by
  obtain ⟨σ, hσ, hb⟩ := h
  obtain ⟨τ, hτ, hc⟩ := h'
  refine ⟨τ.trans σ, fun x hx => ?_, fun x => ?_⟩
  · rw [Equiv.trans_apply, hτ x hx, hσ x hx]
  · rw [hc, hb, Equiv.trans_apply]

/-- What lies in the one lies in the other. -/
theorem Rearranged.found (h : Rearranged n a b) {x : Nat} (hx : x < n) : ∃ y, y < n ∧ b y = a x := by
  obtain ⟨σ, hσ, hb⟩ := h
  refine ⟨σ.symm x, ?_, by rw [hb, Equiv.apply_symm_apply]⟩
  by_contra hge
  have hfix := hσ _ (Nat.le_of_not_lt hge)
  rw [Equiv.apply_symm_apply] at hfix
  exact hge (hfix ▸ hx)

theorem Rearranged.origin (h : Rearranged n a b) {y : Nat} (hy : y < n) : ∃ x, x < n ∧ b y = a x := by
  obtain ⟨σ, hσ, hb⟩ := h
  refine ⟨σ y, ?_, hb y⟩
  by_contra hge
  have hfix := hσ _ (Nat.le_of_not_lt hge)
  exact hge ((σ.injective hfix).symm ▸ hy)

def swap (a : Nat → α) (i k : Nat) : Nat → α := fun x => a (Equiv.swap i k x)

theorem swap_left (a : Nat → α) (i k : Nat) : swap a i k i = a k := by
  rw [swap, Equiv.swap_apply_left]

theorem swap_right (a : Nat → α) (i k : Nat) : swap a i k k = a i := by
  rw [swap, Equiv.swap_apply_right]

theorem swap_other (a : Nat → α) {i k x : Nat} (hi : x ≠ i) (hk : x ≠ k) : swap a i k x = a x := by
  rw [swap, Equiv.swap_apply_of_ne_of_ne hi hk]

theorem rearranged_swap (a : Nat → α) {i k : Nat} (hi : i < n) (hk : k < n) : Rearranged n a (swap a i k) :=
  ⟨Equiv.swap i k, fun _ hx => Equiv.swap_apply_of_ne_of_ne (by omega) (by omega), fun _ => rfl⟩

/-! ## The sort -/

section Passes
variable [LinearOrder κ] (key : α → κ)

/-- The entry at `k` goes down by steps of `m` as long as it is less than what it meets. -/
def sift (m k : Nat) (a : Nat → α) : Nat → α :=
  if 0 < m ∧ m ≤ k then
    if key (a (k - m)) ≤ key (a k) then a else sift m (k - m) (swap a (k - m) k)
  else a
termination_by k
decreasing_by omega

/-- Each entry from the gap on -/
def pass (n m : Nat) (a : Nat → α) : Nat → α := loop (n - m) (fun t => sift key m (m + t)) a

/-- The passes with the gaps `m`, `m / 2` and so on, down to one. -/
def gapSort (n m : Nat) (a : Nat → α) : Nat → α :=
  if 0 < m then gapSort n (m / 2) (pass key n m a) else a
termination_by m
decreasing_by omega

theorem rearranged_sift (m : Nat) {k : Nat} (hk : k < n) (a : Nat → α) : Rearranged n a (sift key m k a) := by
  fun_induction sift key m k a with
  | case1 k a hm hle => exact .refl n a
  | case2 k a hm hlt ih => exact (rearranged_swap a (by omega) hk).trans (ih (by omega))
  | case3 k a hm => exact .refl n a

theorem rearranged_pass (n m : Nat) (a : Nat → α) : Rearranged n a (pass key n m a) :=
  loop_inv (fun _ b => Rearranged n a b) (.refl n a)
    fun t _ ht h => h.trans (rearranged_sift key m (by omega) _)

theorem rearranged_gapSort (n m : Nat) (a : Nat → α) : Rearranged n a (gapSort key n m a) := by
  fun_induction gapSort key n m a with
  | case1 m a hm ih => exact (rearranged_pass key n m a).trans ih
  | case2 m a hm => exact .refl n a

/-! ## Order -/

def Sorted (n : Nat) (a : Nat → α) : Prop := ∀ x y, x < y → y < n → key (a x) ≤ key (a y)

/-- Sorted but for the entry at `k`, which is no greater than those behind it. -/
def SortedBut (n k : Nat) (a : Nat → α) : Prop := ∀ x y, x < y → y < n → y ≠ k → key (a x) ≤ key (a y)

theorem sorted_sift {k : Nat} (hk : k < n) (h : SortedBut key n k a) : Sorted key n (sift key 1 k a) := by
  fun_induction sift key 1 k a with
  | case1 k a hm hle =>
    intro x y hxy hy
    by_cases hyk : y = k
    · subst hyk
      by_cases hx : x = y - 1
      · rwa [hx]
      · exact le_trans (h x (y - 1) (by omega) (by omega) (by omega)) hle
    · exact h x y hxy hy hyk
  | case2 k a hm hlt ih =>
    have hless : key (a k) ≤ key (a (k - 1)) := le_of_not_ge hlt
    refine ih (by omega) fun x y hxy hy hyk => ?_
    by_cases hy' : y = k
    · subst hy'
      rw [swap_right]
      by_cases hx : x = y - 1
      · rwa [hx, swap_left]
      · rw [swap_other a hx (by omega)]
        exact h x (y - 1) (by omega) (by omega) (by omega)
    · rw [swap_other a hyk hy']
      by_cases hx : x = k
      · subst hx
        rw [swap_right]
        exact h (x - 1) y (by omega) hy hy'
      · by_cases hx' : x = k - 1
        · rw [hx', swap_left]
          exact h k y (by omega) hy hy'
        · rw [swap_other a hx' hx]
          exact h x y hxy hy hy'
  | case3 k a hm =>
    exact fun x y hxy hy => h x y hxy hy (by omega)

theorem sorted_pass (n : Nat) (a : Nat → α) : Sorted key n (pass key n 1 a) := by
  have hprefix : Sorted key (n - 1 + 1) (pass key n 1 a) := by
    refine loop_inv (fun t b => Sorted key (t + 1) b) (fun x y hxy hy => by omega) fun t b ht h => ?_
    refine sorted_sift key (by omega) fun x y hxy hy hyt => h x y hxy (by omega)
  exact fun x y hxy hy => hprefix x y hxy (by omega)

/-- The last pass sorts. -/
theorem sorted_gapSort (n : Nat) {m : Nat} (hm : 0 < m) (a : Nat → α) : Sorted key n (gapSort key n m a) := by
  induction m using Nat.strongRecOn generalizing a with
  | _ m ih =>
    rw [gapSort, if_pos hm]
    by_cases h1 : m = 1
    · subst h1
      rw [gapSort, if_neg (by decide)]
      exact sorted_pass key n a
    · exact ih (m / 2) (by omega) (by omega) _

end Passes

end SmartPrince.Lib.GapSort
