import SmartPrince.Common.Rgb24Soundness
import SmartPrince.Common.Yuv420Soundness

/-! # The photos of the face collector, `main.c`

`main_thread_face_collector` has each photo converted to YUV420P with its
width rounded up to an even one, and from there to grey with its own width.
The two walks agree on luma, which both take byte by byte; of a photo with an
odd width the first one takes pixels that are not there. -/
namespace SmartPrince.Eyes.FaceCollector
open SmartPrince.Lib.Memory SmartPrince.Lib.Plane
open SmartPrince.Common.VideoConv SmartPrince.Common.Yuv420p
open SmartPrince.Common.Rgb24Soundness SmartPrince.Common.Yuv420Soundness

/-! ## The conversions of one photo -/

/-- `w2`: odd to even. -/
def w2 (w : Nat) : Nat := if w % 2 = 1 then w + 1 else w

/-- The bytes of `dimg`. -/
def msize (w h : Nat) : Nat := w2 w * h * 3 + w2 w * 9

variable {ι : Type} [DecidableEq ι]

/-- `simg` is what `stbi_load` returned for a photo of `w` by `h` pixels. -/
def toYuv (dimg simg : Ptr ι) (w h : Nat) (mem : Mem ι) : Mem ι :=
  convRgb24toyuv420p dimg simg (w2 w) h mem

def toGray (dimg simg : Ptr ι) (w h : Nat) (mem : Mem ι) : Mem ι :=
  convYuv420pToGray dimg simg w h (toYuv dimg simg w h mem)

/-- The first conversion reads the photo's bytes and those of `dimg` only, and
the grey pixel of a column and a row is made of the luma of the photo's pixel there. -/
structure InStep (dimg simg : Ptr ι) (w h : Nat) (f : Ptr ι → UInt8) : Prop where
  reads : ∀ q, .load q ∈ (toYuv dimg simg w h ⟨f, []⟩).log →
    Span simg (3 * (w * h)) q ∨ Span dimg (msize w h) q
  luma : ∀ x y, x < w → y < h →
    let yuv := (toYuv dimg simg w h ⟨f, []⟩).byte
    let s := sites rowAhead dimg w h x y
    yuv s.l = UInt8.ofInt (atPixel lumaOf (fun i => f (simg + i)) (y * w + x)) ∧
    (toGray dimg simg w h ⟨f, []⟩).byte (simg + (y * w + x)) =
      grayByte (rgbOf (yuv s.l) (yuv s.u) (yuv s.v))

/-! ## Luma -/

theorem w2_even (w : Nat) : w2 w % 2 = 0 := by
  unfold w2
  split <;> omega

theorem le_w2 (w : Nat) : w ≤ w2 w := by
  unfold w2
  split <;> omega

section Photo
variable {dimg simg : Ptr ι} (hb : simg.base ≠ dimg.base) {w h : Nat} {f : Ptr ι → UInt8}
include hb

/-- Both walks count pixels from the start of the photo, whatever its rows are. -/
theorem luma_in_step {x y : Nat} (hx : x < w) (hy : y < h) :
    let yuv := (toYuv dimg simg w h ⟨f, []⟩).byte
    let s := sites rowAhead dimg w h x y
    yuv s.l = UInt8.ofInt (atPixel lumaOf (fun i => f (simg + i)) (y * w + x)) ∧
    (toGray dimg simg w h ⟨f, []⟩).byte (simg + (y * w + x)) =
      grayByte (rgbOf (yuv s.l) (yuv s.u) (yuv s.v)) := by
  intro yuv s
  have hk : y * w + x < w2 w * h :=
    Nat.lt_of_lt_of_le (site_lt hx hy) (Nat.mul_le_mul_right h (le_w2 w))
  have hgray := convYuv420p_renders grayBytes_length (w := w) (h := h) hb.symm
    (toYuv dimg simg w h ⟨f, []⟩) x y hx hy 0 Nat.one_pos
  rw [Nat.one_mul, Nat.add_zero] at hgray
  exact ⟨convRgb24_luma hb (w2_even w) _ hk, hgray⟩

/-! ## What is read of the photo -/

omit hb in
/-- The chroma cells of an odd number of rows overlap, and stay in `dimg`. -/
theorem cell_lt {k : Nat} (hk : k < w * h) : cellAt w (k % w) (k / w) < w * h + w := by
  have hpos : 0 < w := Nat.pos_of_ne_zero fun h0 => by simp [h0] at hk
  have hrow : k / w / 2 * (w / 2) ≤ k / w * w :=
    Nat.mul_le_mul (Nat.div_le_self _ _) (Nat.div_le_self _ _)
  have hle := Nat.div_mul_le_self k w
  have hcol := Nat.mod_lt k hpos
  rw [cellAt]
  omega

omit hb in
/-- A pixel of the even frame reads its three bytes and its two cells. -/
theorem toYuv_reads {q : Ptr ι} : .load q ∈ (toYuv dimg simg w h ⟨f, []⟩).log →
    Span simg (3 * (w2 w * h)) q ∨ Span dimg (msize w h) q := by
  intro hq
  rw [toYuv, convRgb24_log dimg simg (w2_even w)] at hq
  simp only [List.mem_append, mem_accesses, List.mem_singleton, reduceCtorEq, and_false,
    exists_false, List.not_mem_nil, or_false] at hq
  obtain ⟨k, hk, hq⟩ := hq
  rw [Nat.mul_comm] at hk
  have hcell := cell_lt hk
  simp only [rgbAccesses, List.mem_cons, Access.load.injEq, reduceCtorEq, false_or,
    List.not_mem_nil, or_false] at hq
  rcases hq with rfl | rfl | rfl | rfl | rfl
  · rw [vPlane_add]
    exact .inr (span_add.mpr (by rw [msize]; omega))
  · rw [uPlane_add]
    exact .inr (span_add.mpr (by rw [msize]; omega))
  · exact .inl (span_add.mpr (by omega))
  · exact .inl (span_add.mpr (by omega))
  · exact .inl (span_add.mpr (by omega))

omit hb in
/-- The pixel behind the photo, which an odd row makes up for. -/
theorem toYuv_reads_behind (hw : w % 2 = 1) (hh : 1 ≤ h) :
    .load (simg + 3 * (w * h)) ∈ (toYuv dimg simg w h ⟨f, []⟩).log := by
  have hk : w * h < h * w2 w := by
    rw [w2, if_pos hw, Nat.mul_comm]
    exact Nat.mul_lt_mul_of_pos_left (Nat.lt_succ_self w) hh
  rw [toYuv, convRgb24_log dimg simg (w2_even w)]
  refine List.mem_append_left _ (mem_accesses.mpr ⟨w * h, hk, ?_⟩)
  simp [rgbAccesses]

theorem not_in_step (hw : w % 2 = 1) (hh : 1 ≤ h) : ¬ InStep dimg simg w h f := by
  intro hs
  rcases hs.reads _ (toYuv_reads_behind hw hh) with hin | hin
  · exact Nat.lt_irrefl _ (span_add.mp hin)
  · exact hb hin.1

/-- **The conversions of a photo are in step, and stay inside it, exactly where
its width is even.** -/
theorem in_step_iff (hh : 1 ≤ h) (f : Ptr ι → UInt8) :
    InStep dimg simg w h f ↔ w % 2 = 0 := by
  constructor
  · intro hs
    by_contra hodd
    exact not_in_step hb (by omega) hh hs
  · intro heven
    have he : w2 w = w := if_neg (by omega)
    refine ⟨fun q hq => ?_, fun x y hx hy => luma_in_step hb hx hy⟩
    have hin := toYuv_reads hq
    rwa [he] at hin

end Photo

theorem in_step_row : InStep (ι := Bool) ⟨true, 0⟩ ⟨false, 0⟩ 2 1 (fun _ => 7) ↔ 2 % 2 = 0 :=
  in_step_iff (by decide) (by decide) _

/-- A photo of one pixel: a second one is read behind it. -/
theorem pixel_not_in_step : ¬ InStep (ι := Bool) ⟨true, 0⟩ ⟨false, 0⟩ 1 1 (fun _ => 7) :=
  not_in_step (by decide) (by decide) (by decide)

end SmartPrince.Eyes.FaceCollector
