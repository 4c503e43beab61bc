import SmartPrince.Eyes.DiffSoundness

/-! # Which frames fit the difference's words

`diff_mat` has 33 entries of 32 bits. The rows cleared are the whole windows of
the height, the rows and columns visited are all that begin inside the frame:
the two agree, and stay in the array and in the frame, for few sizes only. -/
namespace SmartPrince.Eyes.DiffBounds
open SmartPrince.Lib.Loop SmartPrince.Lib.Memory
open SmartPrince.Common.CameraState SmartPrince.Eyes.MotionDiff
open SmartPrince.Eyes.MotionCapture (refImg outImg)
open SmartPrince.Eyes.DiffSoundness (sized)

/-- Every entry touched is one of the array and was cleared before it is used,
every shift is within the word and every pixel within the frame. -/
structure Bounded (tsk : Context) (s : Diff) : Prop where
  entries : ∀ i, .clear i ∈ s.touched ∨ .use i ∈ s.touched → i < diffMatSize
  cleared : ∀ newer i older, s.touched = newer ++ .use i :: older → .clear i ∈ older
  shifts : ∀ c, .shift c ∈ s.touched → c < 32
  pixels : ∀ a ∈ s.mem.log, ∃ i, i < tsk.imgs.width * tsk.imgs.height ∧
    (a = .load (refImg + i) ∨ a = .load (outImg + i))

/-- No rows, or whole windows, at most 33 rows and 32 columns of them. -/
def Fits (width height : Nat) : Prop :=
  height = 0 ∨ ((10 ∣ height ∧ height ≤ 330) ∧ 10 ∣ width ∧ width ≤ 320)

instance (width height : Nat) : Decidable (Fits width height) :=
  inferInstanceAs (Decidable (_ ∨ _))

/-! ## What a row touches -/

theorem diffWindow_byte (width r c : Nat) (s : Diff) :
    (diffWindow width (width * (r * windowSize)) r c s).mem.byte = s.mem.byte := by
  obtain ⟨mem, hbyte, -, heq⟩ := diffWindow_spec width r c s
  rw [heq]
  split <;> exact hbyte

theorem diffWindow_log (width r c : Nat) (s : Diff) :
    Adds (fun a => InWindow refImg width r c a ∨ InWindow outImg width r c a) s.mem.log
      (diffWindow width (width * (r * windowSize)) r c s).mem.log := by
  obtain ⟨mem, -, hlog, heq⟩ := diffWindow_spec width r c s
  rw [heq]
  split <;> exact hlog

/-- A window that differs uses its row's entry and shifts by its column. -/
theorem diffWindow_touched (width r c : Nat) (s : Diff) :
    Adds (fun t => Differs s.mem.byte width r c ∧ (t = .use r ∨ t = .shift c)) s.touched
      (diffWindow width (width * (r * windowSize)) r c s).touched := by
  obtain ⟨mem, -, -, heq⟩ := diffWindow_spec width r c s
  rw [heq]
  split
  · rename_i hdiff
    exact ⟨[.use r, .shift c], rfl, fun t => by simp [hdiff]⟩
  · rename_i hsame
    exact adds_none fun t ht => hsame ht.1

section Row
variable {byte : Ptr Buf → UInt8} (width my r : Nat) {s : Diff}

theorem diffRow_byte (hs : s.mem.byte = byte) : (diffRow width my r s).mem.byte = byte := by
  have hbyte : (loop ((width + 9) / windowSize)
      (diffWindow width (width * (r * windowSize)) r) s).mem.byte = byte :=
    loop_inv (fun _ t => t.mem.byte = byte) hs fun c t _ ht => (diffWindow_byte width r c t).trans ht
  unfold diffRow
  dsimp only
  rw [(DiffSoundness.countRow_spec my r _).1]
  exact hbyte

theorem diffRow_log : Adds
    (fun a => ∃ c, c < (width + 9) / windowSize ∧
      (InWindow refImg width r c a ∨ InWindow outImg width r c a))
    s.mem.log (diffRow width my r s).mem.log := by
  unfold diffRow
  dsimp only
  rw [(DiffSoundness.countRow_spec my r _).1]
  exact adds_loop (f := fun t : Diff => t.mem.log) (I := fun _ => True) (fun _ _ _ => trivial)
    (fun c t _ => diffWindow_log width r c t) trivial

theorem diffRow_touched (hs : s.mem.byte = byte) : Adds
    (fun t => t = .use r ∨ ∃ c, c < (width + 9) / windowSize ∧ Differs byte width r c ∧
      t = .shift c)
    s.touched (diffRow width my r s).touched := by
  have hcols := adds_loop (f := fun t : Diff => t.touched) (I := fun t => t.mem.byte = byte)
    (n := (width + 9) / windowSize)
    (fun c t ht => (diffWindow_byte width r c t).trans ht)
    (fun c t ht => ht ▸ diffWindow_touched width r c t) hs
  unfold diffRow
  dsimp only
  rw [(DiffSoundness.countRow_spec my r _).2.2.1]
  refine (hcols.trans (adds_one _)).congr fun t => ?_
  constructor
  · rintro (⟨c, hc, hd, rfl | rfl⟩ | rfl)
    · exact .inl rfl
    · exact .inr ⟨c, hc, hd, rfl⟩
    · exact .inl rfl
  · rintro (rfl | ⟨c, hc, hd, rfl⟩)
    · exact .inr rfl
    · exact .inl ⟨c, hc, hd, .inr rfl⟩

end Row

/-! ## What the whole function touches -/

/-- The function's state at the end, from a memory nothing was logged for. -/
def finish (tsk : Context) (stack : Nat → BitVec 32) (byte : Ptr Buf → UInt8) : Diff :=
  (motionDiff tsk stack ⟨byte, []⟩).2

def rows (height : Nat) : Nat := (height + 9) / windowSize
def cols (width : Nat) : Nat := (width + 9) / windowSize

section Whole
variable (tsk : Context) (stack : Nat → BitVec 32) (byte : Ptr Buf → UInt8)

/-- The state when the entries were cleared. -/
def clearedDiff : Diff := loop (tsk.imgs.height / windowSize) clearEntry (startDiff stack ⟨byte, []⟩)

theorem finish_eq : finish tsk stack byte = loop (rows tsk.imgs.height)
    (diffRow tsk.imgs.width (tsk.imgs.height / windowSize)) (clearedDiff tsk stack byte) := rfl

theorem clearedDiff_mem : (clearedDiff tsk stack byte).mem = ⟨byte, []⟩ :=
  (DiffSoundness.clearEntry_spec _ _).1

theorem clearedDiff_touched (t : Touch) : t ∈ (clearedDiff tsk stack byte).touched ↔
    ∃ i, i < tsk.imgs.height / windowSize ∧ t = .clear i := by
  have hadds : Adds (fun t => ∃ i, i < tsk.imgs.height / windowSize ∧ t = .clear i) []
      (clearedDiff tsk stack byte).touched :=
    adds_loop (f := fun s : Diff => s.touched) (I := fun _ => True)
      (P := fun i t => t = Touch.clear i) (s := startDiff stack ⟨byte, []⟩) (fun _ _ _ => trivial)
      (fun i s _ => adds_one (Touch.clear i)) trivial
  rw [hadds.mem_iff]
  simp

theorem finish_log (a : Access Buf) : a ∈ (finish tsk stack byte).mem.log ↔
    ∃ r, r < rows tsk.imgs.height ∧ ∃ c, c < cols tsk.imgs.width ∧
      (InWindow refImg tsk.imgs.width r c a ∨ InWindow outImg tsk.imgs.width r c a) := by
  have hadds := adds_loop (f := fun t : Diff => t.mem.log) (I := fun _ => True)
    (n := rows tsk.imgs.height) (s := clearedDiff tsk stack byte) (fun _ _ _ => trivial)
    (fun r t _ => diffRow_log tsk.imgs.width (tsk.imgs.height / windowSize) r) trivial
  rw [finish_eq, hadds.mem_iff, clearedDiff_mem]
  simp [cols]

theorem finish_touched : Adds
    (fun t => ∃ r, r < rows tsk.imgs.height ∧ (t = .use r ∨ ∃ c, c < cols tsk.imgs.width ∧
      Differs byte tsk.imgs.width r c ∧ t = .shift c))
    (clearedDiff tsk stack byte).touched (finish tsk stack byte).touched := by
  rw [finish_eq]
  exact adds_loop (f := fun t : Diff => t.touched) (I := fun t => t.mem.byte = byte)
    (fun r t ht => diffRow_byte _ _ r ht) (fun r t ht => diffRow_touched _ _ r ht)
    (congrArg Mem.byte (clearedDiff_mem tsk stack byte))

theorem finish_used (i : Nat) : .use i ∈ (finish tsk stack byte).touched ↔
    i < rows tsk.imgs.height := by
  rw [(finish_touched tsk stack byte).mem_iff, clearedDiff_touched]
  simp

theorem finish_cleared (i : Nat) : .clear i ∈ (finish tsk stack byte).touched ↔
    i < tsk.imgs.height / windowSize := by
  rw [(finish_touched tsk stack byte).mem_iff, clearedDiff_touched]
  simp

theorem finish_shifted (c : Nat) : .shift c ∈ (finish tsk stack byte).touched ↔
    ∃ r, r < rows tsk.imgs.height ∧ c < cols tsk.imgs.width ∧
      Differs byte tsk.imgs.width r c := by
  rw [(finish_touched tsk stack byte).mem_iff, clearedDiff_touched]
  simp

end Whole

/-! ## The sizes that fit -/

/-- In whole windows every pixel loaded lies in the frame. -/
theorem pixel_lt {width height r c y x : Nat} (hw : 10 ∣ width) (hh : 10 ∣ height)
    (hr : r < rows height) (hc : c < cols width) (hy : y < windowSize) (hx : x < windowSize) :
    pixel width r c y x < width * height := by
  unfold rows cols windowSize at *
  unfold pixel windowSize
  have hcol : c * 10 + x < width := by omega
  have hrow : r * 10 + y + 1 ≤ height := by omega
  have hmul : width * (r * 10 + y + 1) ≤ width * height := Nat.mul_le_mul_left width hrow
  rw [Nat.mul_succ] at hmul
  omega

/-- Where the rows are whole windows, the words used are those that were cleared. -/
theorem cleared_before_use {tsk : Context} {stack : Nat → BitVec 32} {byte : Ptr Buf → UInt8}
    (hrows : rows tsk.imgs.height = tsk.imgs.height / windowSize) {newer older : List Touch}
    {i : Nat} (hsplit : (finish tsk stack byte).touched = newer ++ .use i :: older) :
    .clear i ∈ older := by
  have hi : i < rows tsk.imgs.height := by
    rw [← finish_used tsk stack byte, hsplit]
    simp
  have hnot : .use i ∉ (clearedDiff tsk stack byte).touched := by
    rw [clearedDiff_touched]
    simp
  obtain ⟨between, rfl⟩ := (finish_touched tsk stack byte).older hnot hsplit
  rw [hrows] at hi
  exact List.mem_append_right _ ((clearedDiff_touched tsk stack byte _).mpr ⟨i, hi, rfl⟩)

theorem bounded_of_fits {tsk : Context} (h : Fits tsk.imgs.width tsk.imgs.height)
    (stack : Nat → BitVec 32) (byte : Ptr Buf → UInt8) : Bounded tsk (finish tsk stack byte) := by
  have hrows : rows tsk.imgs.height = tsk.imgs.height / windowSize := by
    unfold rows windowSize
    unfold Fits at h
    omega
  have hmy : tsk.imgs.height / windowSize ≤ diffMatSize := by
    unfold windowSize diffMatSize
    unfold Fits at h
    omega
  constructor
  · intro i hi
    rw [finish_cleared, finish_used] at hi
    omega
  · intro newer i older hsplit
    exact cleared_before_use hrows hsplit
  · intro c hc
    obtain ⟨r, hr, hc, -⟩ := (finish_shifted tsk stack byte c).mp hc
    unfold rows cols windowSize at *
    unfold Fits at h
    omega
  · intro a ha
    obtain ⟨r, hr, c, hc, hin⟩ := (finish_log tsk stack byte a).mp ha
    obtain h0 | ⟨⟨hh, -⟩, hw, -⟩ := h
    · rw [h0] at hr
      cases hr
    · obtain ⟨y, hy, x, hx, rfl⟩ | ⟨y, hy, x, hx, rfl⟩ := hin
      · exact ⟨_, pixel_lt hw hh hr hc hy hx, .inl rfl⟩
      · exact ⟨_, pixel_lt hw hh hr hc hy hx, .inr rfl⟩

/-- One frame is white and the other black. -/
def whiteBlack (p : Ptr Buf) : UInt8 := if p.base = .ref then 255 else 0

theorem windowMax_plain {byte : Ptr Buf → UInt8} {img : Ptr Buf} {v : Nat}
    (h : ∀ i : Nat, (byte (img + i)).toNat = v) (width r c : Nat) :
    windowMax byte img width r c = v := by
  have hne : (Finset.range windowSize).Nonempty := ⟨0, by decide⟩
  unfold windowMax
  simp only [h]
  rw [Finset.sup_const hne, Finset.sup_const hne]

theorem whiteBlack_differs (width r c : Nat) : Differs whiteBlack width r c := by
  have href : windowMax whiteBlack refImg width r c = 255 :=
    windowMax_plain (fun _ => rfl) width r c
  have hout : windowMax whiteBlack outImg width r c = 0 :=
    windowMax_plain (fun _ => rfl) width r c
  unfold Differs
  rw [href, hout]
  decide

/-- A load of a pixel that lies in the frame. -/
theorem Bounded.pixel_lt {tsk : Context} {s : Diff} (h : Bounded tsk s) {i : Nat}
    (hi : .load (refImg + i) ∈ s.mem.log) : i < tsk.imgs.width * tsk.imgs.height := by
  obtain ⟨j, hj, heq | heq⟩ := h.pixels _ hi
  · rw [Ptr.add_right_inj.mp (Access.load.inj heq)]
    exact hj
  · have hbase := congrArg Ptr.base (Access.load.inj heq)
    cases hbase

/-- The last pixel of the last window lies in the frame only where the columns are whole. -/
theorem whole_columns {width height : Nat} (hh : 10 ∣ height) (h0 : height ≠ 0)
    (h : pixel width (rows height - 1) (cols width - 1) 9 9 < width * height) : 10 ∣ width := by
  unfold pixel rows cols windowSize at h
  have hlast : ((height + 9) / 10 - 1) * 10 + 9 + 1 = height := by omega
  have hmul : width * (((height + 9) / 10 - 1) * 10 + 9) + width = width * height := by
    rw [← Nat.mul_succ]
    exact congrArg (width * ·) hlast
  omega

/-- The last row's word is used, so it must be one of the array and cleared. -/
theorem whole_rows {tsk : Context} {stack : Nat → BitVec 32} {byte : Ptr Buf → UInt8}
    (h : Bounded tsk (finish tsk stack byte)) (h0 : tsk.imgs.height ≠ 0) :
    10 ∣ tsk.imgs.height ∧ tsk.imgs.height ≤ 330 := by
  have hlast : rows tsk.imgs.height - 1 < rows tsk.imgs.height := by
    unfold rows windowSize
    omega
  have huse := (finish_used tsk stack byte _).mpr hlast
  have hsize := h.entries _ (.inr huse)
  obtain ⟨newer, older, hsplit⟩ := List.append_of_mem huse
  have hclear : .clear (rows tsk.imgs.height - 1) ∈ (finish tsk stack byte).touched := by
    rw [hsplit]
    exact List.mem_append_right _ (List.mem_cons_of_mem _ (h.cleared _ _ _ hsplit))
  rw [finish_cleared] at hclear
  unfold rows windowSize diffMatSize at *
  omega

theorem fits_of_bounded {tsk : Context} {stack : Nat → BitVec 32}
    (h : Bounded tsk (finish tsk stack whiteBlack)) : Fits tsk.imgs.width tsk.imgs.height := by
  by_cases h0 : tsk.imgs.height = 0
  · exact .inl h0
  · have hrows := whole_rows h h0
    refine .inr ⟨hrows, ?_⟩
    by_cases hw : tsk.imgs.width = 0
    · rw [hw]
      decide
    · have hlast : rows tsk.imgs.height - 1 < rows tsk.imgs.height := by
        unfold rows windowSize
        omega
      have hlastcol : cols tsk.imgs.width - 1 < cols tsk.imgs.width := by
        unfold cols windowSize
        omega
      have hshift := h.shifts _ ((finish_shifted tsk stack whiteBlack _).mpr
        ⟨_, hlast, hlastcol, whiteBlack_differs _ _ _⟩)
      have hpixel := h.pixel_lt ((finish_log tsk stack whiteBlack _).mpr
        ⟨_, hlast, _, hlastcol, .inl ⟨9, by decide, 9, by decide, rfl⟩⟩)
      have hcols := whole_columns hrows.1 h0 hpixel
      unfold cols windowSize at hshift
      omega

/-- **The function stays within its words and the frames exactly for the sizes
that fit:** no height, or whole windows, 33 rows and 32 columns at most. For
every content of the frames and of the stack. -/
theorem motionDiff_bounded_iff (tsk : Context) :
    (∀ stack byte, Bounded tsk (motionDiff tsk stack ⟨byte, []⟩).2) ↔
      Fits tsk.imgs.width tsk.imgs.height :=
  ⟨fun h => fits_of_bounded (h (fun _ => 0) whiteBlack), bounded_of_fits⟩

/-- `VIDEO_WIDTH` and `VIDEO_HEIGHT`, 480 each: 48 rows are cleared, 33 are there. -/
theorem motionDiff_480_unbounded :
    ¬ ∀ stack byte, Bounded (sized 480 480) (motionDiff (sized 480 480) stack ⟨byte, []⟩).2 := by
  intro h
  have hfits := fits_of_bounded (h (fun _ => 0) whiteBlack)
  revert hfits
  decide

end SmartPrince.Eyes.DiffBounds
