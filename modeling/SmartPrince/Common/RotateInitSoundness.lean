import SmartPrince.Common.RotateSoundness

/-! # What `rotate_init` promises

The angle is taken modulo 360 with the remainder of C, which keeps the sign,
and the swap of the dimensions is not taken back when the format turns out not
to be supported. The buffer is there for the quarter turns alone, and what
`rotate_map` does in it fits as long as its size is an `int`. -/
namespace SmartPrince.Common.RotateInitSoundness
open SmartPrince.Lib.Loop SmartPrince.Lib.Memory SmartPrince.Lib.Word SmartPrince.Lib.CInt
open SmartPrince.Common.CameraState SmartPrince.Common.Rotate SmartPrince.Common.RotateSoundness

/-! ## What is touched of the temporary buffer -/

/-- From `m` to `m'` no byte of the temporary buffer was touched but its first `n`. -/
def TempWithin (n : Nat) (m m' : Mem Buf) : Prop :=
  ∀ a ∈ m'.log, a ∈ m.log ∨ a.ptr.base ≠ .tempBuf ∨ Span tempBuf n a.ptr

variable {n : Nat}

theorem TempWithin.refl (m : Mem Buf) : TempWithin n m m := fun _ ha => .inl ha

theorem TempWithin.trans {m m' m'' : Mem Buf} (h : TempWithin n m m') (h' : TempWithin n m' m'') :
    TempWithin n m m'' := fun a ha => (h' a ha).elim (h a) .inr

theorem TempWithin.of_log {m m' : Mem Buf} (as : List (Access Buf)) (hlog : m'.log = as ++ m.log)
    (has : ∀ a ∈ as, a.ptr.base ≠ .tempBuf ∨ Span tempBuf n a.ptr) : TempWithin n m m' := by
  intro a ha
  rw [hlog, List.mem_append] at ha
  exact ha.symm.imp id (has a)

/-- A loop that copies to the buffer or from it. -/
theorem TempWithin.copies {dst src : Nat → Ptr Buf} {k : Nat}
    (h : ∀ j, j < k → ((dst j).base ≠ .tempBuf ∨ Span tempBuf n (dst j)) ∧
      ((src j).base ≠ .tempBuf ∨ Span tempBuf n (src j))) (m : Mem Buf) :
    TempWithin n m (loop k (fun j m => m.copy (dst j) (src j)) m) := by
  have hlog : (loop k (fun j m => m.copy (dst j) (src j)) m).log =
      accesses (fun j => [.store (dst j), .load (src j)]) k ++ m.log :=
    loop_log (fun _ _ _ => rfl) m
  refine .of_log _ hlog fun a ha => ?_
  obtain ⟨j, hj, ha⟩ := mem_accesses.mp ha
  simp only [List.mem_cons, List.not_mem_nil, or_false] at ha
  rcases ha with rfl | rfl
  · exact (h j hj).1
  · exact (h j hj).2

/-- A quarter turn of `size` bytes into the buffer keeps to them. -/
def Fits (turn : Ptr Buf → Ptr Buf → Nat → Nat → Nat → Mem Buf → Mem Buf) : Prop :=
  ∀ {src : Ptr Buf}, src.base ≠ .tempBuf → ∀ {off size W H n : Nat}, W * H ≤ size → off + size ≤ n →
    ∀ m, TempWithin n m (turn src (tempBuf + off) size W H m)

theorem rot90cw_fits : Fits rot90cw := by
  intro src hb off size W H n hsize hn m
  rw [rot90cw_loop]
  refine TempWithin.copies ?_ m
  refine fun k hk => ⟨.inr ?_, .inl hb⟩
  rw [Ptr.add_assoc, span_add]
  omega

theorem rot90ccw_fits : Fits rot90ccw := by
  intro src hb off size W H n hsize hn m
  rw [rot90ccw_loop]
  refine TempWithin.copies ?_ m
  refine fun k hk => ⟨.inr ?_, .inl hb⟩
  rw [Ptr.add_assoc, Ptr.sub_sub, Ptr.add_sub _ (by omega), span_add]
  omega

section Turns
variable {map : Ptr Buf} (hb : map.base ≠ .tempBuf)
include hb

theorem memcpy_within {k : Nat} (hk : k ≤ n) (m : Mem Buf) :
    TempWithin n m (m.memcpy map tempBuf k) := by
  show TempWithin n m (loop k (fun j m => m.copy (map + j) (tempBuf + j)) m)
  refine TempWithin.copies ?_ m
  exact fun j hj => ⟨.inl hb, .inr (span_add.mpr (by omega))⟩

/-- The bytes a quarter turn needs. -/
def quarterBytes (cnt : Context) : Nat :=
  if cnt.imgs.type = paletteYuv420p then
    cnt.rotateData.capWidth * cnt.rotateData.capHeight * 3 / 2
  else cnt.rotateData.capWidth * cnt.rotateData.capHeight

omit hb in
theorem half_planes_le (W H : Nat) : W / 2 * (H / 2) ≤ W * H / 4 := by
  rw [Nat.le_div_iff_mul_le (by decide)]
  calc W / 2 * (H / 2) * 4
      = W / 2 * 2 * (H / 2 * 2) := by ring
    _ ≤ W * H := Nat.mul_le_mul (Nat.div_mul_le_self W 2) (Nat.div_mul_le_self H 2)

theorem rotateQuarter_within {turn : Ptr Buf → Ptr Buf → Nat → Nat → Nat → Mem Buf → Mem Buf}
    (hturn : Fits turn) (cnt : Context) (m : Mem Buf) :
    TempWithin (quarterBytes cnt) m (rotateQuarter turn cnt map m) := by
  simp only [rotateQuarter, quarterBytes, Ptr.add_assoc]
  generalize cnt.rotateData.capWidth = W
  generalize cnt.rotateData.capHeight = H
  have hchroma := half_planes_le W H
  have hluma : ∀ n, W * H ≤ n → TempWithin n m (turn map tempBuf (W * H) W H m) := fun n hn => by
    have h : TempWithin n m (turn map (tempBuf + 0) (W * H) W H m) :=
      hturn hb le_rfl (by omega) m
    rwa [Ptr.add_zero] at h
  split
  · refine (hluma _ (by omega)).trans ((hturn ?_ hchroma ?_ _).trans
      ((hturn ?_ hchroma ?_ _).trans (memcpy_within hb le_rfl _)))
    · exact hb
    · omega
    · exact hb
    · omega
  · exact (hluma _ le_rfl).trans (memcpy_within hb le_rfl _)

omit hb in
theorem loadWord_within {p : Ptr Buf} (hp : p.base ≠ .tempBuf) (m : Mem Buf) :
    TempWithin n m (loadWord m p).2 := by
  refine .of_log [.load (p + 3), .load (p + 2), .load (p + 1), .load p] rfl ?_
  simp [hp]

omit hb in
theorem storeWord_within {p : Ptr Buf} (hp : p.base ≠ .tempBuf) (m : Mem Buf) (w : UInt32) :
    TempWithin n m (storeWord m p w) := by
  refine .of_log [.store (p + 1 + 1 + 1), .store (p + 1 + 1), .store (p + 1), .store p] rfl ?_
  simp [hp]

omit hb in
/-- The half turn works in place. -/
theorem reverseQuads_within {nsrc ndst : Ptr Buf} (hs : nsrc.base ≠ .tempBuf)
    (hd : ndst.base ≠ .tempBuf) (m : Mem Buf) : TempWithin n m (reverseQuads nsrc ndst m) := by
  fun_induction reverseQuads nsrc ndst m with
  | case1 nsrc ndst m hlt last m1 hl tmp first m2 hf m3 m4 ih =>
    have h1 : TempWithin n m m1 := by
      have h := loadWord_within (n := n) hd m
      rwa [hl] at h
    have h2 : TempWithin n m1 m2 := by
      have h := loadWord_within (n := n) hs m1
      rwa [hf] at h
    exact (h1.trans h2).trans (((storeWord_within hd m2 _).trans (storeWord_within hs m3 _)).trans
      (ih hs hd))
  | case2 nsrc ndst m hlt => exact .refl m

theorem reverseInplaceQuad_within (size : Nat) (m : Mem Buf) :
    TempWithin n m (reverseInplaceQuad map size m) := by
  rw [reverseInplaceQuad]
  exact reverseQuads_within hb (by exact hb) m

/-- **`rotate_map` keeps to the bytes that a quarter turn needs**, for other angles to none. -/
theorem rotateMap_within (cnt : Context) {n : Nat}
    (hn : cnt.rotateData.degrees = 90 ∨ cnt.rotateData.degrees = 270 → n = quarterBytes cnt)
    (m : Mem Buf) : TempWithin n m (rotateMap cnt map m).2 := by
  simp only [rotateMap]
  split_ifs with h90 h180 hyuv h270
  · rw [hn (.inl h90)]
    exact rotateQuarter_within hb rot90cw_fits cnt m
  · exact (reverseInplaceQuad_within hb _ m).trans ((reverseInplaceQuad_within (by exact hb) _ _).trans
      (reverseInplaceQuad_within (by exact hb) _ _))
  · exact reverseInplaceQuad_within hb _ m
  · rw [hn (.inr h270)]
    exact rotateQuarter_within hb rot90ccw_fits cnt m
  · exact .refl m

end Turns

/-! ## What is stored in the temporary buffer -/

/-- A quarter turn to the start of the buffer stores at the last byte of the
plane, and every turn only adds to the accesses. -/
structure Stores (turn : Ptr Buf → Ptr Buf → Nat → Nat → Nat → Mem Buf → Mem Buf) : Prop where
  last : ∀ (src : Ptr Buf) {W H : Nat}, 0 < W * H → ∀ m,
    .store (tempBuf + (W * H - 1)) ∈ (turn src tempBuf (W * H) W H m).log
  kept : ∀ (src dst : Ptr Buf) (size W H : Nat) {m : Mem Buf}, ∀ a ∈ m.log,
    a ∈ (turn src dst size W H m).log

theorem copies_log (dst src : Nat → Ptr Buf) (k : Nat) (m : Mem Buf) :
    (loop k (fun j m => m.copy (dst j) (src j)) m).log =
      accesses (fun j => [.store (dst j), .load (src j)]) k ++ m.log :=
  loop_log (fun _ _ _ => rfl) m

theorem rot90cw_stores : Stores rot90cw where
  last src W H hpos m := by
    rw [rot90cw_loop, copies_log]
    exact List.mem_append_left _ (mem_accesses.mpr ⟨W * H - 1, by omega, List.mem_cons_self⟩)
  kept src dst size W H m a ha := by
    rw [rot90cw_loop, copies_log]
    exact List.mem_append_right _ ha

theorem rot90ccw_stores : Stores rot90ccw where
  last src W H hpos m := by
    have hlast : tempBuf + W * H - 1 - 0 = tempBuf + (W * H - 1) := by
      rw [Ptr.sub_sub, Ptr.add_sub _ (by omega)]
    rw [rot90ccw_loop, copies_log, ← hlast]
    exact List.mem_append_left _ (mem_accesses.mpr ⟨0, hpos, List.mem_cons_self⟩)
  kept src dst size W H m a ha := by
    rw [rot90ccw_loop, copies_log]
    exact List.mem_append_right _ ha

theorem rotateQuarter_stores {turn : Ptr Buf → Ptr Buf → Nat → Nat → Nat → Mem Buf → Mem Buf}
    (hturn : Stores turn) (cnt : Context) (map : Ptr Buf) (m : Mem Buf)
    (hpos : 0 < cnt.rotateData.capWidth * cnt.rotateData.capHeight) :
    .store (tempBuf + (cnt.rotateData.capWidth * cnt.rotateData.capHeight - 1)) ∈
      (rotateQuarter turn cnt map m).log := by
  have hluma := hturn.last map hpos m
  have hcopy : ∀ {k : Nat} {m : Mem Buf}, ∀ a ∈ m.log, a ∈ (m.memcpy map tempBuf k).log := by
    intro k m a ha
    rw [Mem.memcpy_log]
    exact List.mem_append_right _ ha
  simp only [rotateQuarter]
  split
  · exact hcopy _ (hturn.kept _ _ _ _ _ _ (hturn.kept _ _ _ _ _ _ hluma))
  · exact hcopy _ hluma

/-- A quarter turn stores the whole luma in the buffer. -/
theorem rotateMap_stores {cnt : Context}
    (hq : cnt.rotateData.degrees = 90 ∨ cnt.rotateData.degrees = 270)
    (hpos : 0 < cnt.rotateData.capWidth * cnt.rotateData.capHeight) (map : Ptr Buf) (m : Mem Buf) :
    .store (tempBuf + (cnt.rotateData.capWidth * cnt.rotateData.capHeight - 1)) ∈
      (rotateMap cnt map m).2.log := by
  simp only [rotateMap]
  rcases hq with hq | hq
  · rw [if_pos hq]
    exact rotateQuarter_stores rot90cw_stores cnt map m hpos
  · rw [if_neg (by omega), if_neg (by omega), if_pos hq]
    exact rotateQuarter_stores rot90ccw_stores cnt map m hpos

/-! ## The angle -/

theorem angle_eq (cnt : Context) : angle cnt =
    if cnt.conf.rotateDeg.tmod 90 > 0 then 0 else cnt.conf.rotateDeg.tmod 360 := by
  rw [angle, rotateDegrees]
  split <;> rfl

theorem angle_of_nonneg {cnt : Context} (h : 0 ≤ cnt.conf.rotateDeg) :
    angle cnt = if cnt.conf.rotateDeg % 90 = 0 then cnt.conf.rotateDeg % 360 else 0 := by
  rw [angle_eq, Int.tmod_eq_emod_of_nonneg h, Int.tmod_eq_emod_of_nonneg h]
  split_ifs <;> omega

/-- The remainder of C keeps the sign. -/
theorem angle_of_neg {cnt : Context} (h : cnt.conf.rotateDeg < 0) :
    angle cnt = -(-cnt.conf.rotateDeg % 360) := by
  have h90 := Int.tmod_eq_emod_of_nonneg (show 0 ≤ -cnt.conf.rotateDeg by omega) (b := 90)
  have h360 := Int.tmod_eq_emod_of_nonneg (show 0 ≤ -cnt.conf.rotateDeg by omega) (b := 360)
  rw [Int.neg_tmod] at h90 h360
  rw [angle_eq, if_neg (by omega)]
  omega

/-! ## The promise -/

/-- The angle of the configuration, where the format can be rotated by it. -/
def wanted (cnt : Context) : Int :=
  if (cnt.imgs.type = paletteYuv420p ∨ cnt.imgs.type = paletteGrey) ∧ cnt.conf.rotateDeg % 90 = 0
  then cnt.conf.rotateDeg % 360 else 0

/-- What `rotate_init` is to leave in `cnt'` of the context `cnt`. -/
structure Initialized (cnt cnt' : Context) : Prop where
  degrees : cnt'.rotateData.degrees = wanted cnt
  captured : cnt'.rotateData.capWidth = cnt.imgs.width ∧ cnt'.rotateData.capHeight = cnt.imgs.height
  dimensions : (cnt'.imgs.width, cnt'.imgs.height) =
    if cnt'.rotateData.degrees = 90 ∨ cnt'.rotateData.degrees = 270 then
      (cnt.imgs.height, cnt.imgs.width) else (cnt.imgs.width, cnt.imgs.height)
  allocated : cnt'.rotateData.tempBuf.isSome ↔
    cnt'.rotateData.degrees = 90 ∨ cnt'.rotateData.degrees = 270
  enough : ∀ {map : Ptr Buf}, map.base ≠ .tempBuf → ∀ m,
    TempWithin (cnt'.allocated .tempBuf) m (rotateMap cnt' map m).2

/-- A quarter turn of a format that can be turned is asked for. -/
structure Quarter (cnt : Context) : Prop where
  supported : Supported cnt
  nonneg : 0 ≤ cnt.conf.rotateDeg
  quarter : cnt.conf.rotateDeg % 360 = 90 ∨ cnt.conf.rotateDeg % 360 = 270

/-- The largest product in the size of the buffer. -/
def product (cnt : Context) : Nat :=
  if cnt.imgs.type = paletteYuv420p then cnt.imgs.width * cnt.imgs.height * 3
  else cnt.imgs.width * cnt.imgs.height

/-- The settings on which no stage contradicts another and no size overflows. -/
structure Consistent (cnt : Context) : Prop where
  supported : cnt.imgs.type = paletteYuv420p ∨ cnt.imgs.type = paletteGrey →
    0 ≤ cnt.conf.rotateDeg ∨ cnt.conf.rotateDeg % 360 = 0
  unsupported : ¬ (cnt.imgs.type = paletteYuv420p ∨ cnt.imgs.type = paletteGrey) →
    0 ≤ cnt.conf.rotateDeg →
      cnt.conf.rotateDeg % 360 = 90 ∨ cnt.conf.rotateDeg % 360 = 270 →
        cnt.imgs.width = cnt.imgs.height
  size : Quarter cnt → product cnt < 2 ^ 31

theorem angle_quarter_iff {cnt : Context} : (angle cnt = 90 ∨ angle cnt = 270) ↔
    0 ≤ cnt.conf.rotateDeg ∧
      (cnt.conf.rotateDeg % 360 = 90 ∨ cnt.conf.rotateDeg % 360 = 270) := by
  by_cases hpos : 0 ≤ cnt.conf.rotateDeg
  · rw [angle_of_nonneg hpos, and_iff_right hpos]
    split <;> omega
  · rw [angle_of_neg (by omega)]
    omega

theorem quarterSize_of_lt {cnt : Context} (h : product cnt < 2 ^ 31) :
    quarterSize cnt = (if cnt.imgs.type = paletteYuv420p then
      cnt.imgs.width * cnt.imgs.height * 3 / 2 else cnt.imgs.width * cnt.imgs.height : Nat) := by
  unfold product at h
  unfold quarterSize
  rw [Nat.mul_comm cnt.imgs.width] at h ⊢
  split
  · next hyuv => exact yuvBytes_eq (by rwa [if_pos hyuv] at h)
  · next hgrey =>
    rw [if_neg hgrey] at h
    rw [← Nat.cast_mul]
    exact int_natCast h

/-- A size that overflows is too small for the luma. -/
theorem quarterSize_overflow {cnt : Context} (h : 2 ^ 31 ≤ product cnt) :
    quarterSize cnt < (cnt.imgs.width * cnt.imgs.height : Nat) := by
  unfold product at h
  unfold quarterSize
  rw [Nat.mul_comm cnt.imgs.width] at h ⊢
  split
  · next hyuv => exact yuvBytes_overflow (by rwa [if_pos hyuv] at h)
  · next hgrey =>
    rw [if_neg hgrey] at h
    have hlt := int_lt (cnt.imgs.height * cnt.imgs.width)
    omega

section Stages
variable {cnt cnt' : Context} (hs : Staged cnt cnt')
include hs

/-- The swap goes by the angle of the first stage. -/
theorem staged_dimensions : (cnt'.imgs.width, cnt'.imgs.height) =
    if angle cnt = 90 ∨ angle cnt = 270 then (cnt.imgs.height, cnt.imgs.width)
    else (cnt.imgs.width, cnt.imgs.height) := by
  rw [hs.imgs]
  split <;> rfl

theorem staged_type : cnt'.imgs.type = cnt.imgs.type := by
  rw [hs.imgs]
  split <;> rfl

theorem staged_quarter (hq : Quarter cnt) : cnt'.rotateData.tempBuf = mymalloc (quarterSize cnt) ∧
    (cnt'.rotateData.degrees = 90 ∨ cnt'.rotateData.degrees = 270) := by
  have hangle := angle_quarter_iff.mpr ⟨hq.nonneg, hq.quarter⟩
  rw [hs.degrees hq.supported]
  exact ⟨hs.buffer hq.supported hangle, hangle⟩

/-- Where no quarter turn is left there is no buffer. -/
theorem staged_other (hq : ¬ Quarter cnt) : cnt'.rotateData.tempBuf = none ∧
    ¬ (cnt'.rotateData.degrees = 90 ∨ cnt'.rotateData.degrees = 270) := by
  have hangle : ¬ (Supported cnt ∧ (angle cnt = 90 ∨ angle cnt = 270)) := fun h =>
    have hdeg := angle_quarter_iff.mp h.2
    hq ⟨h.1, hdeg.1, hdeg.2⟩
  refine ⟨hs.noBuffer hangle, fun h => ?_⟩
  by_cases hsup : Supported cnt
  · rw [hs.degrees hsup] at h
    exact hangle ⟨hsup, h⟩
  · rw [hs.disabled hsup] at h
    omega

/-- The buffer is there for the degrees that are left. -/
theorem staged_allocated (hsize : Quarter cnt → product cnt < 2 ^ 31) :
    cnt'.rotateData.tempBuf.isSome ↔
      cnt'.rotateData.degrees = 90 ∨ cnt'.rotateData.degrees = 270 := by
  by_cases hq : Quarter cnt
  · obtain ⟨hbuf, hdeg⟩ := staged_quarter hs hq
    rw [hbuf, quarterSize_of_lt (hsize hq), mymalloc_natCast]
    exact ⟨fun _ => hdeg, fun _ => rfl⟩
  · obtain ⟨hbuf, hdeg⟩ := staged_other hs hq
    rw [hbuf]
    exact ⟨fun h => absurd h (by decide), fun h => absurd h hdeg⟩

theorem staged_enough (hsize : Quarter cnt → product cnt < 2 ^ 31) {map : Ptr Buf}
    (hb : map.base ≠ .tempBuf) (m : Mem Buf) :
    TempWithin (cnt'.allocated .tempBuf) m (rotateMap cnt' map m).2 := by
  refine rotateMap_within hb cnt' (fun hdeg => ?_) m
  by_cases hq : Quarter cnt
  · rw [Context.allocated, (staged_quarter hs hq).1, quarterSize_of_lt (hsize hq),
      mymalloc_natCast, quarterBytes, staged_type hs, hs.capWidth, hs.capHeight]
    rfl
  · exact absurd hdeg (staged_other hs hq).2

/-- Where the size overflows, there is no buffer or the luma leaves it. -/
theorem staged_size (hallocated : cnt'.rotateData.tempBuf.isSome ↔
      cnt'.rotateData.degrees = 90 ∨ cnt'.rotateData.degrees = 270)
    (henough : TempWithin (cnt'.allocated .tempBuf) ⟨fun _ => 0, []⟩
      (rotateMap cnt' imageVirgin ⟨fun _ => 0, []⟩).2)
    (hq : Quarter cnt) : product cnt < 2 ^ 31 := by
  by_contra hlarge
  have hsmall := @quarterSize_overflow cnt (by omega)
  obtain ⟨hbuf, hdeg⟩ := staged_quarter hs hq
  have hsome := hallocated.mpr hdeg
  rw [hbuf, mymalloc] at hsome
  have hpos : ¬ quarterSize cnt < 0 := fun hneg => by
    rw [if_pos hneg] at hsome
    cases hsome
  rw [Context.allocated, hbuf, mymalloc, if_neg hpos, Option.getD_some] at henough
  have hstore := rotateMap_stores hdeg (by rw [hs.capWidth, hs.capHeight]; omega) imageVirgin
    ⟨fun _ => 0, []⟩
  rw [hs.capWidth, hs.capHeight] at hstore
  rcases henough _ hstore with hlog | hbase | hspan
  · cases hlog
  · exact hbase rfl
  · rw [Access.ptr_store, span_add] at hspan
    omega

/-- An angle below 0 is kept only where it is none. -/
theorem staged_wanted_iff : cnt'.rotateData.degrees = wanted cnt ↔
    (Supported cnt → 0 ≤ cnt.conf.rotateDeg ∨ cnt.conf.rotateDeg % 360 = 0) := by
  unfold wanted
  by_cases hsup : Supported cnt
  · rw [hs.degrees hsup, forall_prop_of_true hsup]
    simp only [and_iff_right (show _ ∨ _ from hsup)]
    by_cases hpos : 0 ≤ cnt.conf.rotateDeg
    · exact iff_of_true (angle_of_nonneg hpos) (.inl hpos)
    · rw [angle_of_neg (by omega), or_iff_right hpos]
      split <;> omega
  · rw [hs.disabled hsup, if_neg fun h => hsup h.1]
    exact iff_of_true rfl fun h => absurd h hsup

/-- A swap that is not taken back swaps nothing if the image is a square. -/
theorem staged_swapped_iff : (cnt'.imgs.width, cnt'.imgs.height) =
    (if cnt'.rotateData.degrees = 90 ∨ cnt'.rotateData.degrees = 270 then
      (cnt.imgs.height, cnt.imgs.width) else (cnt.imgs.width, cnt.imgs.height)) ↔
    (¬ Supported cnt → 0 ≤ cnt.conf.rotateDeg →
      cnt.conf.rotateDeg % 360 = 90 ∨ cnt.conf.rotateDeg % 360 = 270 →
        cnt.imgs.width = cnt.imgs.height) := by
  rw [staged_dimensions hs]
  by_cases hsup : Supported cnt
  · rw [hs.degrees hsup]
    exact iff_of_true rfl fun h => absurd hsup h
  · have hzero : ¬ ((0 : Int) = 90 ∨ (0 : Int) = 270) := by decide
    rw [hs.disabled hsup, if_neg hzero]
    constructor
    · intro hdim _ hpos hq
      rw [angle_of_nonneg hpos, if_pos (show cnt.conf.rotateDeg % 90 = 0 by omega), if_pos hq,
        Prod.mk.injEq] at hdim
      exact hdim.2
    · intro hsquare
      split
      · next hq =>
        have hpos : 0 ≤ cnt.conf.rotateDeg := by
          by_contra hneg
          rw [angle_of_neg (by omega)] at hq
          omega
        rw [angle_of_nonneg hpos] at hq
        rw [hsquare hsup hpos (by split at hq <;> omega)]
      · rfl

end Stages

/-- **`rotate_init` keeps its promise on consistent settings, and only there.** -/
theorem rotate_init_iff (cnt : Context) : Initialized cnt (rotateInit cnt) ↔ Consistent cnt := by
  have hs := rotateInit_staged cnt
  constructor
  · intro hi
    exact ⟨(staged_wanted_iff hs).mp hi.degrees, (staged_swapped_iff hs).mp hi.dimensions,
      staged_size hs hi.allocated (hi.enough (by decide) _)⟩
  · intro hc
    exact {
      degrees := (staged_wanted_iff hs).mpr hc.supported
      captured := ⟨hs.capWidth, hs.capHeight⟩
      dimensions := (staged_swapped_iff hs).mpr hc.unsupported
      allocated := staged_allocated hs hc.size
      enough := staged_enough hs hc.size }

def camera (rotateDeg : Int) (type width height : Nat) : Context :=
  { Context.zero with
    conf := { Context.zero.conf with rotateDeg }
    imgs := { Context.zero.imgs with type, width, height } }

/-- A turn to the left is no rotation, a format that cannot be rotated keeps the
swap, and a picture of more than 4 GiB gets a buffer of one byte. -/
theorem rotate_init_fails :
    ¬ Initialized (camera (-90) paletteYuv420p 640 480)
      (rotateInit (camera (-90) paletteYuv420p 640 480)) ∧
    ¬ Initialized (camera 90 paletteRgb24 640 480)
      (rotateInit (camera 90 paletteRgb24 640 480)) ∧
    (rotateInit (camera 90 paletteYuv420p 1431655766 1)).rotateData.tempBuf = some 1 ∧
      ¬ Initialized (camera 90 paletteYuv420p 1431655766 1)
        (rotateInit (camera 90 paletteYuv420p 1431655766 1)) := by
  refine ⟨fun h => absurd h.degrees (by decide), fun h => absurd h.dimensions (by decide),
    by decide, fun h => ?_⟩
  have hsize := staged_size (rotateInit_staged _) h.allocated (h.enough (by decide) _)
    ⟨.inl rfl, by decide, .inl rfl⟩
  exact absurd hsize (by decide)

end SmartPrince.Common.RotateInitSoundness
