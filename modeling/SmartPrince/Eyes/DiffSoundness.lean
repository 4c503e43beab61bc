import SmartPrince.Eyes.MotionDiff

/-! # What counts as motion

The bits of a row's word are the columns whose windows differ; of these the
three masks leave 1 to 7, 12 to 19 and 24 to 30. Whichever of the five counters
a row goes to, it is their sum that decides. -/
namespace SmartPrince.Eyes.DiffSoundness
open SmartPrince.Lib.Loop SmartPrince.Lib.Memory
open SmartPrince.Common.CameraState SmartPrince.Eyes.MotionDiff

/-- The columns that the masks leave. -/
def Watched (c : Nat) : Prop := (1 ≤ c ∧ c ≤ 7) ∨ (12 ≤ c ∧ c ≤ 19) ∨ (24 ≤ c ∧ c ≤ 30)

/-- Some whole window in a watched column differs. -/
def Moved (byte : Ptr Buf → UInt8) (width height : Nat) : Prop :=
  ∃ r c, r < height / windowSize ∧ c < width / windowSize ∧ Watched c ∧ Differs byte width r c

/-! ## The bits of a word -/

theorem ne_zero_iff {n : Nat} (w : BitVec n) : w ≠ 0#n ↔ ∃ i, w.getLsbD i = true := by
  rw [Ne, BitVec.zero_iff_eq_false, not_forall]
  simp only [Bool.not_eq_false]

/-- A mask and a shift that leave the bits from `lo` to `hi`. -/
theorem masked_ne_zero_iff (w : BitVec 32) {m : BitVec 32} {k lo hi : Nat} (hk : k ≤ lo)
    (hm : ∀ i, m.getLsbD i = decide (lo ≤ i ∧ i ≤ hi)) :
    (w &&& m) >>> k ≠ 0 ↔ ∃ i, (lo ≤ i ∧ i ≤ hi) ∧ w.getLsbD i = true := by
  refine (ne_zero_iff _).trans ?_
  constructor
  · rintro ⟨i, hi⟩
    rw [BitVec.getLsbD_ushiftRight, BitVec.getLsbD_and, hm, Bool.and_eq_true,
      decide_eq_true_eq] at hi
    exact ⟨k + i, hi.2, hi.1⟩
  · rintro ⟨i, hi, hw⟩
    refine ⟨i - k, ?_⟩
    rw [BitVec.getLsbD_ushiftRight, BitVec.getLsbD_and, hm, Nat.add_sub_cancel' (by omega), hw,
      decide_eq_true hi]
    rfl

theorem mask_bits {m : BitVec 32} {lo hi : Nat} (hhi : hi < 32)
    (h : ∀ i : Fin 32, m.getLsbD i = decide (lo ≤ i.val ∧ i.val ≤ hi)) (i : Nat) :
    m.getLsbD i = decide (lo ≤ i ∧ i ≤ hi) := by
  by_cases hlt : i < 32
  · exact h ⟨i, hlt⟩
  · rw [BitVec.getLsbD_of_ge m i (by omega), decide_eq_false (by omega)]

theorem right_iff (w : BitVec 32) : (w &&& diffMaskRight) >>> 24 ≠ 0 ↔
    ∃ i, (24 ≤ i ∧ i ≤ 30) ∧ w.getLsbD i = true :=
  masked_ne_zero_iff w (by decide) (mask_bits (by decide) (by decide))

theorem left_iff (w : BitVec 32) : w &&& diffMaskLeft ≠ 0 ↔
    ∃ i, (1 ≤ i ∧ i ≤ 7) ∧ w.getLsbD i = true := by
  rw [← BitVec.ushiftRight_zero (w &&& diffMaskLeft)]
  exact masked_ne_zero_iff w (by decide) (mask_bits (by decide) (by decide))

theorem center_iff (w : BitVec 32) : (w &&& diffMaskCenter) >>> 12 ≠ 0 ↔
    ∃ i, (12 ≤ i ∧ i ≤ 19) ∧ w.getLsbD i = true :=
  masked_ne_zero_iff w (by decide) (mask_bits (by decide) (by decide))

/-! ## The counters -/

def total (s : Diff) : Nat := s.right + s.left + s.up + s.down + s.center

theorem countRight_eq (r : Nat) (s : Diff) : ∃ n, countRight r s = { s with right := s.right + n } ∧
    (0 < n ↔ (s.diffMat r &&& diffMaskRight) >>> 24 ≠ 0) := by
  unfold countRight
  split
  · rename_i h
    exact ⟨1, rfl, iff_of_true Nat.one_pos h⟩
  · rename_i h
    exact ⟨0, rfl, iff_of_false (Nat.lt_irrefl 0) h⟩

theorem countLeft_eq (r : Nat) (s : Diff) : ∃ n, countLeft r s = { s with left := s.left + n } ∧
    (0 < n ↔ s.diffMat r &&& diffMaskLeft ≠ 0) := by
  unfold countLeft
  split
  · rename_i h
    exact ⟨1, rfl, iff_of_true Nat.one_pos h⟩
  · rename_i h
    exact ⟨0, rfl, iff_of_false (Nat.lt_irrefl 0) h⟩

/-- Whatever the row, one of the three counters goes up. -/
theorem countCenter_eq (my r : Nat) (s : Diff) : ∃ up down center,
    countCenter my r s =
      { s with up := s.up + up, down := s.down + down, center := s.center + center } ∧
    (0 < up + down + center ↔ (s.diffMat r &&& diffMaskCenter) >>> 12 ≠ 0) := by
  unfold countCenter
  dsimp only
  split
  · rename_i h
    split
    · exact ⟨1, 0, 0, rfl, iff_of_true (by decide) h⟩
    · split
      · exact ⟨0, 1, 0, rfl, iff_of_true (by decide) h⟩
      · exact ⟨0, 0, 1, rfl, iff_of_true (by decide) h⟩
  · rename_i h
    exact ⟨0, 0, 0, rfl, iff_of_false (by decide) h⟩

/-- A row is counted where its word has a watched bit; nothing else changes but the counters. -/
theorem countRow_spec (my r : Nat) (s : Diff) :
    (countRow my r s).mem = s.mem ∧ (countRow my r s).diffMat = s.diffMat ∧
      (countRow my r s).touched = .use r :: s.touched ∧
      (0 < total (countRow my r s) ↔
        0 < total s ∨ ∃ c, Watched c ∧ (s.diffMat r).getLsbD c = true) := by
  unfold countRow
  obtain ⟨right, hright, hr⟩ := countRight_eq r { s with touched := .use r :: s.touched }
  rw [hright]
  obtain ⟨left, hleft, hl⟩ := countLeft_eq r
    { s with touched := .use r :: s.touched, right := s.right + right }
  rw [hleft]
  obtain ⟨up, down, center, hcenter, hc⟩ := countCenter_eq my r
    { s with touched := .use r :: s.touched, right := s.right + right, left := s.left + left }
  rw [hcenter]
  refine ⟨rfl, rfl, rfl, ?_⟩
  rw [right_iff] at hr
  rw [left_iff] at hl
  rw [center_iff] at hc
  have hany : (∃ c, Watched c ∧ (s.diffMat r).getLsbD c = true) ↔
      0 < left ∨ 0 < up + down + center ∨ 0 < right := by
    rw [hr, hl, hc, ← exists_or, ← exists_or]
    refine exists_congr fun c => ?_
    rw [Watched, ← or_and_right, ← or_and_right]
  rw [hany]
  unfold total
  dsimp only
  omega

/-! ## A row -/

theorem mark_bit (w : BitVec 32) (k : Nat) {c : Nat} (hc : c < 32) :
    (w ||| 1#32 <<< k).getLsbD c = (w.getLsbD c || decide (c = k)) := by
  rw [BitVec.getLsbD_or, ← BitVec.twoPow_eq, BitVec.getLsbD_twoPow]
  by_cases hk : c = k
  · subst hk
    simp [hc]
  · simp [hk, Ne.symm hk]

/-- `n` windows of row `r` have set the bits of those that differ. -/
structure Marked (width r n : Nat) (s s' : Diff) : Prop where
  byte : s'.mem.byte = s.mem.byte
  others : ∀ r', r' ≠ r → s'.diffMat r' = s.diffMat r'
  bits : ∀ c, c < 32 → (s'.diffMat r).getLsbD c =
    ((s.diffMat r).getLsbD c || decide (c < n ∧ Differs s.mem.byte width r c))
  total : total s' = total s

theorem marked_windows (width r n : Nat) (s : Diff) :
    Marked width r n s (loop n (diffWindow width (width * (r * windowSize)) r) s) := by
  refine loop_inv (Marked width r · s) ⟨rfl, fun _ _ => rfl, fun c _ => by simp, rfl⟩ ?_
  intro k t _ ht
  obtain ⟨mem, hbyte, -, heq⟩ := diffWindow_spec width r k t
  rw [heq, ht.byte]
  split
  · rename_i hdiff
    refine ⟨hbyte.trans ht.byte, fun r' hr' => ?_, fun c hc => ?_, ht.total⟩
    · exact (Function.update_of_ne hr' _ _).trans (ht.others r' hr')
    · change (Function.update t.diffMat r (t.diffMat r ||| 1#32 <<< k) r).getLsbD c = _
      rw [Function.update_self, mark_bit _ _ hc, ht.bits c hc, Bool.or_assoc, ← Bool.decide_or]
      congr 2
      by_cases hck : c = k
      · subst hck
        simp [hdiff]
      · have hlt : c < k + 1 ↔ c < k := by omega
        simp [hck, hlt]
  · rename_i hsame
    refine ⟨hbyte.trans ht.byte, ht.others, fun c hc => ?_, ht.total⟩
    rw [ht.bits c hc]
    congr 2
    by_cases hck : c = k
    · subst hck
      simp [hsame]
    · have hlt : c < k + 1 ↔ c < k := by omega
      rw [hlt]

/-- A row that finds its word cleared is counted where a watched window differs. -/
theorem diffRow_spec (width my r : Nat) {s : Diff} (h0 : s.diffMat r = 0)
    (hw : (width + 9) / windowSize ≤ 32) :
    (diffRow width my r s).mem.byte = s.mem.byte ∧
      (∀ r', r' ≠ r → (diffRow width my r s).diffMat r' = s.diffMat r') ∧
      (0 < total (diffRow width my r s) ↔ 0 < total s ∨
        ∃ c, c < (width + 9) / windowSize ∧ Watched c ∧ Differs s.mem.byte width r c) := by
  have hm := marked_windows width r ((width + 9) / windowSize) s
  unfold diffRow
  dsimp only
  generalize loop ((width + 9) / windowSize) (diffWindow width (width * (r * windowSize)) r) s = t
    at hm ⊢
  obtain ⟨hmem, hmat, -, htotal⟩ := countRow_spec my r t
  refine ⟨(congrArg Mem.byte hmem).trans hm.byte, fun r' hr' => ?_, ?_⟩
  · rw [hmat]
    exact hm.others r' hr'
  · rw [htotal, hm.total]
    refine or_congr_right (exists_congr fun c => ?_)
    constructor
    · rintro ⟨hwatched, hbit⟩
      have hc : c < 32 := by
        unfold Watched at hwatched
        omega
      rw [hm.bits c hc, h0] at hbit
      have hboth : c < (width + 9) / windowSize ∧ Differs s.mem.byte width r c := by
        simpa using hbit
      exact ⟨hboth.1, hwatched, hboth.2⟩
    · rintro ⟨hlt, hwatched, hdiff⟩
      refine ⟨hwatched, ?_⟩
      rw [hm.bits c (by omega), decide_eq_true ⟨hlt, hdiff⟩, Bool.or_true]

/-! ## The frame -/

theorem clearEntry_spec (n : Nat) (s : Diff) :
    (loop n clearEntry s).mem = s.mem ∧ total (loop n clearEntry s) = total s ∧
      ∀ r, r < n → (loop n clearEntry s).diffMat r = 0 := by
  refine loop_inv (fun n t => t.mem = s.mem ∧ total t = total s ∧ ∀ r, r < n → t.diffMat r = 0)
    ⟨rfl, rfl, fun r hr => nomatch hr⟩ ?_
  rintro k t - ⟨hmem, htotal, hzero⟩
  refine ⟨hmem, htotal, fun r hr => ?_⟩
  by_cases hk : r = k
  · subst hk
    exact Function.update_self ..
  · exact (Function.update_of_ne hk _ _).trans (hzero r (by omega))

theorem ceil_of_dvd {n : Nat} (h : windowSize ∣ n) : (n + 9) / windowSize = n / windowSize := by
  obtain ⟨k, rfl⟩ := h
  unfold windowSize
  omega

/-- After `k` of `n` rows the words of the others are still cleared, and there
is a count where a watched window of a row differed. -/
structure Counted (width n : Nat) (s : Diff) (k : Nat) (t : Diff) : Prop where
  byte : t.mem.byte = s.mem.byte
  cleared : ∀ r, k ≤ r → r < n → t.diffMat r = 0
  count : 0 < total t ↔ 0 < total s ∨ ∃ r, r < k ∧ ∃ c, c < (width + 9) / windowSize ∧
    Watched c ∧ Differs s.mem.byte width r c

theorem counted_rows {width n : Nat} (my : Nat) (hw : (width + 9) / windowSize ≤ 32) {s : Diff}
    (h0 : ∀ r, r < n → s.diffMat r = 0) : Counted width n s n (loop n (diffRow width my) s) := by
  refine loop_inv (Counted width n s) ⟨rfl, fun r _ hr => h0 r hr, by simp⟩ ?_
  intro k t hk ht
  obtain ⟨hb, hothers, hcount⟩ := diffRow_spec width my k (ht.cleared k (Nat.le_refl k) hk) hw
  refine ⟨hb.trans ht.byte, fun r hr hrn => ?_, ?_⟩
  · exact (hothers r (by omega)).trans (ht.cleared r (by omega) hrn)
  · rw [hcount, ht.count, ht.byte, or_assoc]
    refine or_congr_right ?_
    constructor
    · rintro (⟨r, hr, h⟩ | h)
      · exact ⟨r, Nat.lt_succ_of_lt hr, h⟩
      · exact ⟨k, Nat.lt_succ_self k, h⟩
    · rintro ⟨r, hr, h⟩
      rcases Nat.lt_succ_iff_lt_or_eq.mp hr with hr | rfl
      · exact .inl ⟨r, hr, h⟩
      · exact .inr h

/-- **Motion is reported exactly where a watched window differs by more than
50,** for every size that has whole windows and up to 32 columns of them, all
frames and whatever the stack holds. -/
theorem motionDiff_iff {tsk : Context} (hw : 10 ∣ tsk.imgs.width) (hw' : tsk.imgs.width ≤ 320)
    (hh : 10 ∣ tsk.imgs.height) (_ : tsk.imgs.height ≤ 320) (stack : Nat → BitVec 32)
    (mem : Mem Buf) :
    ((motionDiff tsk stack mem).1 = 1 ↔ Moved mem.byte tsk.imgs.width tsk.imgs.height) ∧
      ((motionDiff tsk stack mem).1 = 0 ↔ ¬ Moved mem.byte tsk.imgs.width tsk.imgs.height) := by
  have hcols : (tsk.imgs.width + 9) / windowSize ≤ 32 := by
    unfold windowSize
    omega
  unfold motionDiff
  dsimp only
  have hmem0 : (startDiff stack mem).mem = mem := rfl
  have htotal0 : total (startDiff stack mem) = 0 := rfl
  obtain ⟨hmem, htotal, hzero⟩ := clearEntry_spec (tsk.imgs.height / windowSize)
    (startDiff stack mem)
  have hrows := (counted_rows (tsk.imgs.height / windowSize) hcols hzero).count
  rw [htotal, htotal0, hmem, hmem0, ceil_of_dvd hw] at hrows
  have hmoved : 0 < total (loop (tsk.imgs.height / windowSize)
      (diffRow tsk.imgs.width (tsk.imgs.height / windowSize))
      (loop (tsk.imgs.height / windowSize) clearEntry (startDiff stack mem))) ↔
      Moved mem.byte tsk.imgs.width tsk.imgs.height := by
    rw [hrows]
    unfold Moved
    simp
  rw [ceil_of_dvd hh]
  unfold total at hmoved
  split
  · rename_i h
    simp [hmoved.mp h]
  · rename_i h
    have hno : ¬ Moved mem.byte tsk.imgs.width tsk.imgs.height := mt hmoved.mpr h
    simp [hno]

/-- A task whose frames have this size. -/
def sized (width height : Nat) : Context :=
  { Context.zero with imgs := { Context.zero.imgs with width, height } }

/-- Of two windows, the one in column 1 has a bright pixel in one frame. -/
theorem motionDiff_spot :
    ((motionDiff (sized 20 10) (fun _ => 7) ⟨fun p => if p = ⟨.ref, 15⟩ then 51 else 0, []⟩).1 = 1 ↔
      Moved (fun p => if p = ⟨.ref, 15⟩ then 51 else 0) 20 10) ∧
    (motionDiff (sized 20 10) (fun _ => 7) ⟨fun p => if p = ⟨.ref, 15⟩ then 51 else 0, []⟩).1 = 1 :=
  ⟨(@motionDiff_iff (sized 20 10) (by decide) (by decide) (by decide) (by decide) _ _).1,
    by decide +kernel⟩

end SmartPrince.Eyes.DiffSoundness
