import SmartPrince.Lib.Bits
import SmartPrince.Lib.Plane
import SmartPrince.Common.VideoConv

/-! # Sonix decompression, pixel by pixel

The rows of the source are one loop over the pixels here. Each turn takes the
next bits, stores one pixel at the output cursor and moves the cursor by one;
the bit position is an `int`, and comes back from the negative side where the
bits of a frame take 2^31 or more. -/
namespace SmartPrince.Common.SonixTurns
open SmartPrince.Lib.CInt SmartPrince.Lib.Loop SmartPrince.Lib.Memory SmartPrince.Lib.Plane
open SmartPrince.Lib.Bits SmartPrince.Common.VideoConv

variable {ι : Type} [DecidableEq ι]

/-- The first two pixels of the first two rows are raw. -/
def isRaw (row col : Nat) : Prop := row < 2 ∧ col < 2

instance (row col : Nat) : Decidable (isRaw row col) := inferInstanceAs (Decidable (_ ∧ _))

def sonixTurn (inp : Ptr ι) (w k : Nat) (s : SonixCursor ι × Mem ι) : SonixCursor ι × Mem ι :=
  if isRaw (k / w) (k % w) then sonixRaw inp (k % w) s else sonixPixel inp w (k / w) (k % w) s

/-- The decoder after `k` pixels. -/
def sonixAfter (outp inp : Ptr ι) (w k : Nat) (m : Mem ι) : SonixCursor ι × Mem ι :=
  loop k (sonixTurn inp w) (⟨outp, 0⟩, m)

/-! ## Rows -/

section Walk
variable {inp : Ptr ι} {w : Nat}

theorem sonixTurn_raw {row col : Nat} (hcol : col < w) (hr : isRaw row col) (j : Nat)
    (s : SonixCursor ι × Mem ι) : sonixTurn inp w (row * w + col) s = sonixRaw inp j s := by
  rw [sonixTurn, site_div hcol, site_mod hcol, if_pos hr]
  rfl

theorem sonixTurn_pixel {row col : Nat} (hcol : col < w) (hr : ¬ isRaw row col)
    (s : SonixCursor ι × Mem ι) :
    sonixTurn inp w (row * w + col) s = sonixPixel inp w row col s := by
  rw [sonixTurn, site_div hcol, site_mod hcol, if_neg hr]

theorem sonixRow_turns (hw : 2 ≤ w) (row : Nat) (s : SonixCursor ι × Mem ι) :
    sonixRow inp w row s = loop w (fun col => sonixTurn inp w (row * w + col)) s := by
  have hraw (hrow : row < 2) : loop 2 (sonixRaw inp) s =
      loop 2 (fun col => sonixTurn inp w (row * w + col)) s :=
    loop_congr (fun k t hk => (sonixTurn_raw (by omega) ⟨hrow, hk⟩ k t).symm) s
  have hcode (c : Nat) (hc : row < 2 → 2 ≤ c) (t : SonixCursor ι × Mem ι) :
      loop (w - c) (fun k => sonixPixel inp w row (c + k)) t =
        loop (w - c) (fun k => sonixTurn inp w (row * w + (c + k))) t :=
    loop_congr (fun k t hk => (sonixTurn_pixel (by omega) (fun hr => by
      have hc2 := hc hr.1
      have hcol := hr.2
      omega) t).symm) t
  simp only [sonixRow]
  by_cases hrow : row < 2
  · simp only [if_pos hrow]
    rw [hraw hrow, hcode 2 (fun _ => le_rfl), ← loop_add 2 (w - 2)
      fun col => sonixTurn inp w (row * w + col), Nat.add_sub_of_le hw]
  · simp only [if_neg hrow]
    rw [hcode 0 (fun h => absurd h hrow)]
    simp only [loop_zero, Nat.zero_add, Nat.sub_zero]

theorem sonix_walk (hw : 2 ≤ w) (outp inp : Ptr ι) (h : Nat) (m : Mem ι) :
    sonixDecompress outp inp w h m = (sonixAfter outp inp w (w * h) m).2 := by
  rw [sonixDecompress, sonixAfter, Nat.mul_comm w, ← loop_rows,
    loop_congr fun row s _ => sonixRow_turns hw row s]

end Walk

/-! ## What a turn reads and leaves -/

omit [DecidableEq ι] in
/-- The window of a position that is not negative. -/
theorem sonixCode_natCast (inp : Ptr ι) (p : Nat) (m : Mem ι) : sonixCode inp p m =
    (window (m.byte (inp + p / 8)) (m.byte (inp + p / 8 + 1)) (p % 8),
      ⟨m.byte, .load (inp + p / 8 + 1) :: .load (inp + p / 8) :: m.log⟩) := by
  have haddr : inp.shift ((p : Int) / 8) = inp + p / 8 := Ptr.shift_natCast inp (p / 8)
  have hshift : ((p : Int) % 8).toNat = p % 8 := by omega
  simp only [sonixCode, haddr, hshift]
  rfl

omit [DecidableEq ι] in
/-- A row above, as long as twice the width is an `int`. -/
theorem shift_top {w : Nat} (hw : 2 * w ≤ 2 ^ 31) (p : Ptr ι) :
    p.shift (int (-2 * w)) = p - 2 * w := by
  have hint : int (-2 * w) = -((2 * w : Nat) : Int) := by
    rw [int_eq (by omega) (by omega)]
    omega
  rw [hint, Ptr.shift_neg]

/-- The bits that a turn takes. -/
def bitsTaken (inp : Ptr ι) (w k : Nat) (s : SonixCursor ι × Mem ι) : Nat :=
  if isRaw (k / w) (k % w) then 8
  else (sonixDecompressInit (sonixCode inp s.1.bitpos s.2).1.toNat).len

/-- A turn moves the cursors and stores one byte. -/
theorem sonixTurn_steps (inp : Ptr ι) (w k : Nat) (s : SonixCursor ι × Mem ι) :
    (sonixTurn inp w k s).1 = ⟨s.1.outp + 1, int (s.1.bitpos + bitsTaken inp w k s)⟩ ∧
      ∃ v, (sonixTurn inp w k s).2.byte = Function.update s.2.byte s.1.outp v := by
  unfold sonixTurn bitsTaken
  split
  · exact ⟨rfl, _, rfl⟩
  · refine ⟨rfl, ?_⟩
    simp only [sonixPixel]
    split
    · exact ⟨_, rfl⟩
    · split
      · exact ⟨_, rfl⟩
      · split
        · exact ⟨_, rfl⟩
        · exact ⟨_, rfl⟩

theorem sonixAfter_outp (outp inp : Ptr ι) (w : Nat) (m : Mem ι) (k : Nat) :
    (sonixAfter outp inp w k m).1.outp = outp + k := by
  induction k with
  | zero => exact (Ptr.add_zero outp).symm
  | succ k ih =>
    rw [sonixAfter, loop_succ, (sonixTurn_steps inp w k _).1]
    exact (congrArg (· + 1) ih).trans (Ptr.add_assoc outp k 1)

/-- A byte that is no pixel from `k` on stays as it is after `k` turns. -/
theorem sonixAfter_kept {outp : Ptr ι} (inp : Ptr ι) (w : Nat) (m : Mem ι) {q : Ptr ι} {k : Nat}
    (hq : ∀ j, k ≤ j → q ≠ outp + j) {n : Nat} (hn : k ≤ n) :
    (sonixAfter outp inp w n m).2.byte q = (sonixAfter outp inp w k m).2.byte q := by
  induction n, hn using Nat.le_induction with
  | base => rfl
  | succ n hn ih =>
    obtain ⟨v, hv⟩ := (sonixTurn_steps inp w n (sonixAfter outp inp w n m)).2
    rw [sonixAfter_outp] at hv
    rw [← ih, sonixAfter, loop_succ]
    exact (congrFun hv q).trans (Function.update_of_ne (hq n hn) _ _)

/-- Another object is left alone. -/
theorem sonixAfter_apart {outp : Ptr ι} (inp : Ptr ι) (w : Nat) (m : Mem ι) {q : Ptr ι}
    (hq : q.base ≠ outp.base) (k : Nat) : (sonixAfter outp inp w k m).2.byte q = m.byte q := by
  refine sonixAfter_kept inp w m (fun j _ he => ?_) (Nat.zero_le k)
  rw [he] at hq
  exact hq rfl

end SmartPrince.Common.SonixTurns
