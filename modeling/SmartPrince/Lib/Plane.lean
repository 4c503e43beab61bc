import Mathlib.Data.Set.Function
import Mathlib.Order.Interval.Set.Defs
import Mathlib.Tactic.Ring

/-! # Rotating a plane of samples

A plane of `W` columns and `H` rows is stored row by row: the sample of
column `x` and row `y` has index `y * W + x`. A quarter turn moves it to a
plane of `H` columns; the moves are permutations of the indices, and the two
quarter turns undo each other. -/
namespace SmartPrince.Lib.Plane

variable {α : Type*} {W H x y i : Nat}

/-! ## Indices -/

theorem site_lt (hx : x < W) (hy : y < H) : y * W + x < W * H := by
  have h : (y + 1) * W ≤ H * W := Nat.mul_le_mul_right _ hy
  rw [Nat.add_one_mul, Nat.mul_comm H] at h
  omega

theorem site_div (hx : x < W) : (y * W + x) / W = y := by
  rw [Nat.add_comm, Nat.add_mul_div_right _ _ (by omega), Nat.div_eq_of_lt hx, Nat.zero_add]

theorem site_mod (hx : x < W) : (y * W + x) % W = x := by
  rw [Nat.add_comm, Nat.add_mul_mod_self_right, Nat.mod_eq_of_lt hx]

/-- Every index of the plane is that of a column and a row. -/
theorem exists_site (hi : i < W * H) : ∃ x y, x < W ∧ y < H ∧ y * W + x = i := by
  have hW : 0 < W := Nat.pos_of_ne_zero fun h0 => by simp [h0] at hi
  exact ⟨i % W, i / W, Nat.mod_lt _ hW, (Nat.div_lt_iff_lt_mul hW).mpr (by rwa [Nat.mul_comm]),
    Nat.div_add_mod' i W⟩

/-! ## Quarter turns -/

/-- Clockwise: column `x`, row `y` goes to row `x`, column `H - 1 - y`. -/
def turned90 (W H i : Nat) : Nat := i % W * H + (H - 1 - i / W)

/-- Counterclockwise: column `x`, row `y` goes to row `W - 1 - x`, column `y`. -/
def turned270 (W H i : Nat) : Nat := (W - 1 - i % W) * H + i / W

/-- The plane after the clockwise turn. -/
def rot90 (W H : Nat) (p : Nat → α) (k : Nat) : α := p ((H - 1 - k % H) * W + k / H)

/-- The plane after the counterclockwise turn. -/
def rot270 (W H : Nat) (p : Nat → α) (k : Nat) : α := p (k % H * W + (W - 1 - k / H))

/-- The plane after the half turn. -/
def rot180 (W H : Nat) (p : Nat → α) (k : Nat) : α := p (W * H - 1 - k)

theorem turned90_site (hx : x < W) : turned90 W H (y * W + x) = x * H + (H - 1 - y) := by
  rw [turned90, site_div hx, site_mod hx]

theorem turned270_site (hx : x < W) : turned270 W H (y * W + x) = (W - 1 - x) * H + y := by
  rw [turned270, site_div hx, site_mod hx]

theorem turned90_lt (hi : i < W * H) : turned90 W H i < W * H := by
  obtain ⟨x, y, hx, hy, rfl⟩ := exists_site hi
  rw [turned90_site hx, Nat.mul_comm W H]
  exact site_lt (by omega) hx

theorem turned270_lt (hi : i < W * H) : turned270 W H i < W * H := by
  obtain ⟨x, y, hx, hy, rfl⟩ := exists_site hi
  rw [turned270_site hx, Nat.mul_comm W H]
  exact site_lt hy (by omega)

/-- The counterclockwise turn of the turned plane goes back. -/
theorem turned270_turned90 (hi : i < W * H) : turned270 H W (turned90 W H i) = i := by
  obtain ⟨x, y, hx, hy, rfl⟩ := exists_site hi
  rw [turned90_site hx, turned270_site (by omega), show H - 1 - (H - 1 - y) = y by omega]

theorem turned90_turned270 (hi : i < W * H) : turned90 H W (turned270 W H i) = i := by
  obtain ⟨x, y, hx, hy, rfl⟩ := exists_site hi
  rw [turned270_site hx, turned90_site hy, show W - 1 - (W - 1 - x) = x by omega]

theorem turned90_bijOn : Set.BijOn (turned90 W H) (Set.Iio (W * H)) (Set.Iio (W * H)) := by
  refine ⟨fun i hi => turned90_lt hi, fun i hi j hj he => ?_, fun i hi => ?_⟩
  · rw [← turned270_turned90 hi, he, turned270_turned90 hj]
  · have hi' : i < H * W := by rw [Nat.mul_comm]; exact hi
    refine ⟨turned270 H W i, ?_, turned90_turned270 hi'⟩
    rw [Set.mem_Iio, Nat.mul_comm]
    exact turned270_lt hi'

theorem turned270_bijOn : Set.BijOn (turned270 W H) (Set.Iio (W * H)) (Set.Iio (W * H)) := by
  refine ⟨fun i hi => turned270_lt hi, fun i hi j hj he => ?_, fun i hi => ?_⟩
  · rw [← turned90_turned270 hi, he, turned90_turned270 hj]
  · have hi' : i < H * W := by rw [Nat.mul_comm]; exact hi
    refine ⟨turned90 H W i, ?_, turned270_turned90 hi'⟩
    rw [Set.mem_Iio, Nat.mul_comm]
    exact turned90_lt hi'

/-- A sample is where the clockwise turn moved it. -/
theorem rot90_turned90 (p : Nat → α) (hi : i < W * H) : rot90 W H p (turned90 W H i) = p i := by
  obtain ⟨x, y, hx, hy, rfl⟩ := exists_site hi
  rw [turned90_site hx, rot90, site_div (by omega), site_mod (by omega),
    show H - 1 - (H - 1 - y) = y by omega]

theorem rot270_turned270 (p : Nat → α) (hi : i < W * H) :
    rot270 W H p (turned270 W H i) = p i := by
  obtain ⟨x, y, hx, hy, rfl⟩ := exists_site hi
  rw [turned270_site hx, rot270, site_div hy, site_mod hy, show W - 1 - (W - 1 - x) = x by omega]

/-- The turned plane holds at `i` what `turned270` of the swapped plane points to. -/
theorem rot90_eq (p : Nat → α) (hi : i < W * H) : rot90 W H p i = p (turned270 H W i) := by
  have hi' : i < H * W := by rwa [Nat.mul_comm]
  rw [← rot90_turned90 p (W := W) (H := H) (i := turned270 H W i)
    (by rw [Nat.mul_comm]; exact turned270_lt hi'), turned90_turned270 hi']

theorem rot270_eq (p : Nat → α) (hi : i < W * H) : rot270 W H p i = p (turned90 H W i) := by
  have hi' : i < H * W := by rwa [Nat.mul_comm]
  rw [← rot270_turned270 p (W := W) (H := H) (i := turned90 H W i)
    (by rw [Nat.mul_comm]; exact turned90_lt hi'), turned270_turned90 hi']

theorem rot90_congr {p q : Nat → α} (h : ∀ k, k < W * H → p k = q k) (hi : i < W * H) :
    rot90 W H p i = rot90 W H q i := by
  have ht := turned270_lt (by rwa [Nat.mul_comm] : i < H * W)
  rw [rot90_eq p hi, rot90_eq q hi, h _ (by rwa [Nat.mul_comm W])]

theorem rot270_congr {p q : Nat → α} (h : ∀ k, k < W * H → p k = q k) (hi : i < W * H) :
    rot270 W H p i = rot270 W H q i := by
  have ht := turned90_lt (by rwa [Nat.mul_comm] : i < H * W)
  rw [rot270_eq p hi, rot270_eq q hi, h _ (by rwa [Nat.mul_comm W])]

/-- **The two quarter turns undo each other.** -/
theorem rot270_rot90 (p : Nat → α) (hi : i < W * H) : rot270 H W (rot90 W H p) i = p i := by
  rw [rot270_eq _ (by rwa [Nat.mul_comm]), rot90_turned90 p hi]

/-- **Two clockwise turns mirror the plane.** -/
theorem rot90_rot90 (p : Nat → α) (hi : i < W * H) : rot90 H W (rot90 W H p) i = rot180 W H p i := by
  rw [rot90_eq _ (by rwa [Nat.mul_comm])]
  obtain ⟨x, y, hx, hy, rfl⟩ := exists_site hi
  have hW : W - 1 - x < W := by omega
  have hback : W * H - 1 - (y * W + x) = (H - 1 - y) * W + (W - 1 - x) := by
    obtain ⟨d, rfl⟩ : ∃ d, H = d + 1 + y := ⟨H - 1 - y, by omega⟩
    have e : W * (d + 1 + y) = d * W + W + y * W := by ring
    rw [show d + 1 + y - 1 - y = d by omega]
    omega
  rw [turned270_site hx, rot90, rot180, site_div hy, site_mod hy, hback]

end SmartPrince.Lib.Plane
