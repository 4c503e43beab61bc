import SmartPrince.Common.CameraState
import SmartPrince.Common.JpegSamples
import SmartPrince.Common.Yuv420p

/-! # What `mjpegtoyuv420p` passes on

The three planes are copied into the frame whatever `decode_jpeg_raw` returns,
whether or not it stored their bytes, and of whatever samples. -/
namespace SmartPrince.Common.MjpegSoundness
open SmartPrince.Lib.Memory SmartPrince.Lib.Plane SmartPrince.Lib.Fill
open SmartPrince.Common.JpegUtils SmartPrince.Common.JpegSoundness SmartPrince.Common.JpegSamples
open SmartPrince.Common.Yuv420p
open SmartPrince.Common.VideoConv (DecodeJpeg decodeInto)

/-! ## The copies -/

/-- What is stored in the planes for byte `i` of the frame. -/
def stored (raw : Fin 3 → Nat → Option UInt8) (width height i : Nat) : Option UInt8 :=
  if i < width * height then raw 0 i
  else if i < width * height + width * height / 4 then raw 1 (i - width * height)
  else raw 2 (i - width * height - width * height / 4)

/-- The decoder makes `v` of this frame for byte `i`, whatever earlier frames left. -/
def Produced (jpeg : Jpeg) (width height i : Nat) (v : UInt8) : Prop :=
  ∀ jpeg' buf1 buf2, SameFrame jpeg jpeg' →
    stored (decodeJpegRaw jpeg' buf1 buf2 width height).raw width height i = some v

variable {ι : Type} [DecidableEq ι]

/-- A fatal error of the decoder is returned and leaves the frame at `map` alone,
and the bytes stored there are ones that were produced. -/
structure PassesOn (produced : Nat → UInt8 → Prop) (decoded : Int) (map : Ptr ι)
    (f : Ptr ι → UInt8) (ret : Int) (m : Mem ι) : Prop where
  fatal : decoded = -1 → ret = -1 ∧ Leaves map.base ⟨f, []⟩ m
  stored : ∀ q, q.base = map.base → .store q ∈ m.log →
    ∃ i v, q = map + i ∧ produced i v ∧ m.byte q = v

/-- The planes once the decoder has returned: where it stored nothing they are as allocated. -/
def allocated (dec : DecodeJpeg) (yuv : Fin 3 → Ptr ι) (f : Ptr ι → UInt8) : Frame where
  y i := (dec.raw 0 i).getD (f (yuv 0 + i))
  u i := (dec.raw 1 i).getD (f (yuv 1 + i))
  v i := (dec.raw 2 i).getD (f (yuv 2 + i))

section Copies
variable {dec : DecodeJpeg} {yuv : Fin 3 → Ptr ι} {map : Ptr ι} (hmap : ∀ k, (yuv k).base ≠ map.base)
  (hyuv : ∀ j k, j ≠ k → (yuv j).base ≠ (yuv k).base) (capMap : Ptr ι) {w h : Nat} (size : Nat)
  (f : Ptr ι → UInt8)

omit [DecidableEq ι] in
theorem allocated_bytes {i : Nat} {v : UInt8} (hi : stored dec.raw w h i = some v) :
    (allocated dec yuv f).bytes w h i = v := by
  unfold stored at hi
  simp only [Frame.bytes, allocated]
  split_ifs at hi ⊢ <;> rw [hi] <;> rfl

theorem decodeInto_at (p : Ptr ι) (raw : Nat → Option UInt8) (m : Mem ι) (i : Nat) :
    (decodeInto p raw m).byte (p + i) = (raw i).getD (m.byte (p + i)) := by
  simp [decodeInto, Ptr.add_base, Ptr.add_off]

theorem decodeInto_base {p q : Ptr ι} (hq : q.base ≠ p.base) (raw : Nat → Option UInt8)
    (m : Mem ι) : (decodeInto p raw m).byte q = m.byte q := if_neg fun he => hq he.1

theorem mjpegtoyuv420p_stores {q : Ptr ι} :
    .store q ∈ (VideoConv.mjpegtoyuv420p (fun _ _ _ _ => dec) yuv map capMap w h size ⟨f, []⟩).2.log ↔
      Span map (w * h + w * h / 4 + w * h / 4) q := by
  simp only [VideoConv.mjpegtoyuv420p, Mem.store_mem_memcpy, Mem.store_mem_memset, decodeInto]
  rw [span_block, uPlane, vPlane]
  simp only [List.not_mem_nil, or_false]
  tauto

/-- The decoder's planes, and the bytes at `map` before the copies. -/
def decoded (dec : DecodeJpeg) (yuv : Fin 3 → Ptr ι) (f : Ptr ι → UInt8) : Mem ι :=
  decodeInto (yuv 2) (dec.raw 2) (decodeInto (yuv 1) (dec.raw 1)
    (decodeInto (yuv 0) (dec.raw 0) ⟨f, []⟩))

variable (dec) in
include hyuv in
theorem decoded_plane (k : Fin 3) (i : Nat) :
    (decoded dec yuv f).byte (yuv k + i) = (dec.raw k i).getD (f (yuv k + i)) := by
  have hne : ∀ j k, j ≠ k → (yuv j + i).base ≠ (yuv k).base := hyuv
  rw [decoded]
  match k with
  | 0 =>
    rw [decodeInto_base (hne 0 2 (by decide)), decodeInto_base (hne 0 1 (by decide)), decodeInto_at]
  | 1 =>
    rw [decodeInto_base (hne 1 2 (by decide)), decodeInto_at, decodeInto_base (hne 1 0 (by decide))]
  | 2 =>
    rw [decodeInto_at, decodeInto_base (hne 2 1 (by decide)), decodeInto_base (hne 2 0 (by decide))]

include hmap hyuv in
theorem mjpegtoyuv420p_byte {q : Ptr ι} (hq : q.base = map.base) :
    (VideoConv.mjpegtoyuv420p (fun _ _ _ _ => dec) yuv map capMap w h size ⟨f, []⟩).2.byte q =
      putFrame map w h (allocated dec yuv f) f q := by
  have hbase : (decoded dec yuv f).byte q = f q := by
    have hne : ∀ k, q.base ≠ (yuv k).base := fun k he => hmap k (he.symm.trans hq)
    rw [decoded, decodeInto_base (hne 2), decodeInto_base (hne 1), decodeInto_base (hne 0)]
  have hplane := decoded_plane dec hyuv f
  have hcopied : (VideoConv.mjpegtoyuv420p (fun _ _ _ _ => dec) yuv map capMap w h size ⟨f, []⟩).2 =
      (((((decoded dec yuv f).memset map 0 (w * h)).memset (uPlane map w h) 0 (w * h / 4)).memset
        (vPlane map w h) 0 (w * h / 4)).memcpy map (yuv 0) (w * h)
        |>.memcpy (uPlane map w h) (yuv 1) (w * h / 4)
        |>.memcpy (vPlane map w h) (yuv 2) (w * h / 4)) := rfl
  rw [hcopied]
  generalize decoded dec yuv f = m at *
  have hy : ∀ k, (yuv k).base ≠ map.base := hmap
  have hu : ∀ k, (yuv k).base ≠ (uPlane map w h).base := hmap
  have hv : ∀ k, (yuv k).base ≠ (vPlane map w h).base := hmap
  simp only [Mem.memcpy_byte (hv 2), Mem.memcpy_byte (hu 1), Mem.memcpy_byte (hy 0),
    Mem.memset_byte, patch_base_run (hy _), patch_base_run (hu _), patch_base_run (hv _), hplane]
  refine (congrFun (patch_planes (F := allocated dec yuv f)) q).trans ?_
  -- the zeros stored before are all overwritten
  by_cases hin : Span map (w * h + w * h / 4 + w * h / 4) q
  · obtain ⟨i, hi, rfl⟩ := hin.eq_add
    rw [putFrame_bytes hi, putFrame_bytes hi]
  · rw [putFrame_out hin, putFrame_out hin, ← hbase]
    have hzero : _ = putFrame map w h ⟨fun _ => 0, fun _ => 0, fun _ => 0⟩ m.byte := patch_planes
    exact (congrFun hzero q).trans (putFrame_out hin)

variable (dec) in
include hmap hyuv in
/-- Every byte of the frame must be one the decoder produced, and after a fatal
error the one that was there already. -/
theorem passesOn_iff {produced : Nat → UInt8 → Prop}
    (hproduced : ∀ i v, produced i v → stored dec.raw w h i = some v) {ret : Int}
    (hret : ret = if dec.ret = 1 then 2 else dec.ret) :
    PassesOn produced dec.ret map f ret
        (VideoConv.mjpegtoyuv420p (fun _ _ _ _ => dec) yuv map capMap w h size ⟨f, []⟩).2 ↔
      ∀ i, i < w * h + w * h / 4 + w * h / 4 →
        ∃ v, produced i v ∧ (dec.ret = -1 → f (map + i) = v) := by
  have hstore := @mjpegtoyuv420p_stores ι _ dec yuv map capMap w h size f
  have hbyte := @mjpegtoyuv420p_byte ι _ dec yuv map hmap hyuv capMap w h size f
  generalize (VideoConv.mjpegtoyuv420p (fun _ _ _ _ => dec) yuv map capMap w h size ⟨f, []⟩).2 = m
    at *
  have hframe : ∀ {i v}, i < w * h + w * h / 4 + w * h / 4 → stored dec.raw w h i = some v →
      m.byte (map + i) = v := @fun i v hi hv => by
    rw [hbyte (show (map + i).base = map.base from rfl), putFrame_bytes hi, allocated_bytes f hv]
  constructor
  · intro hpass i hi
    obtain ⟨j, v, hj, hv, hm⟩ := hpass.stored (map + i) rfl (hstore.mpr (span_add.mpr hi))
    rw [← Ptr.add_right_inj.mp hj] at hv
    exact ⟨v, hv, fun hfatal => ((hpass.fatal hfatal).2 (map + i) rfl).symm.trans hm⟩
  · intro hall
    refine ⟨fun hfatal => ⟨by rw [hret, hfatal]; rfl, fun q hq => ?_⟩, fun q hq hs => ?_⟩
    · by_cases hin : Span map (w * h + w * h / 4 + w * h / 4) q
      · obtain ⟨i, hi, rfl⟩ := hin.eq_add
        obtain ⟨v, hv, hf⟩ := hall i hi
        exact (hframe hi (hproduced i v hv)).trans (hf hfatal).symm
      · rw [hbyte hq, putFrame_out hin]
    · obtain ⟨i, hi, rfl⟩ := (hstore.mp hs).eq_add
      obtain ⟨v, hv, -⟩ := hall i hi
      exact ⟨i, v, rfl, hv, hframe hi (hproduced i v hv)⟩

end Copies

/-! ## Planes stored as a whole -/

section Whole
variable {p : Picture} {n : Nat} (hpos : 0 < p.width * p.height)
include hpos

theorem lumaRows_whole (hn : p.height ≤ n) :
    (∀ i, i < p.width * p.height → i ∈ lumaRows p n) ↔ lumaLen p = p.width := by
  have hw : 0 < p.width := Nat.pos_of_mul_pos_right hpos
  have hh : 0 < p.height := Nat.pos_of_mul_pos_left hpos
  constructor
  · intro hall
    have hlast : p.width - 1 < p.width * p.height :=
      Nat.lt_of_lt_of_le (by omega) (Nat.le_mul_of_pos_right _ hh)
    obtain ⟨r, x, -, hx, he⟩ := mem_rows.mp (hall _ hlast)
    have hlen := lumaLen_le (p := p)
    -- the last sample of the first row is in no other row
    cases r with
    | zero => omega
    | succ r =>
      have : p.width ≤ (r + 1) * p.width := Nat.le_mul_of_pos_left _ (Nat.succ_pos r)
      omega
  · intro hlen i hi
    obtain ⟨x, y, hx, hy, rfl⟩ := exists_site hi
    exact mem_rows.mpr ⟨y, x, by omega, by omega, rfl⟩

theorem chromaRows_whole (hn : p.height ≤ 2 * n) :
    (∀ i, i < p.width * p.height / 4 → i ∈ chromaRows p n) ↔ p.width % 2 = 0 ∨ p.height < 4 := by
  have hw : 0 < p.width := Nat.pos_of_mul_pos_right hpos
  have hh : 0 < p.height := Nat.pos_of_mul_pos_left hpos
  constructor
  · intro hall
    by_contra hcon
    have hlast : p.width * 4 ≤ p.width * p.height := Nat.mul_le_mul_left _ (by omega)
    obtain ⟨r, x, -, hx, he⟩ := mem_rows.mp (hall (p.width - 1) (by omega))
    -- two rows of an odd width end before it, and the third starts behind it
    match r with
    | 0 => omega
    | 1 => omega
    | r + 2 =>
      have hrow : 2 * p.width ≤ (r + 2) * p.width := Nat.mul_le_mul_right _ (by omega)
      omega
  · rintro (heven | hlow) i hi
    · obtain ⟨c, hc⟩ := Nat.dvd_of_mod_eq_zero heven
      have hlt : i < c * n := by
        have hrows : p.width * p.height ≤ 4 * (c * n) := by
          calc p.width * p.height ≤ p.width * (2 * n) := Nat.mul_le_mul_left _ hn
            _ = 4 * (c * n) := by rw [hc]; ring
        omega
      obtain ⟨x, y, hx, hy, rfl⟩ := exists_site hlt
      refine mem_rows.mpr ⟨y, x, hy, by omega, ?_⟩
      rw [hc, Nat.mul_left_comm, Nat.mul_div_cancel_left _ two_pos]
    · -- the picture has two rows of chroma at most
      have hrows : p.width * p.height ≤ p.width * 3 := Nat.mul_le_mul_left _ (by omega)
      by_cases hfirst : i < p.width / 2
      · exact mem_rows.mpr ⟨0, i, by omega, hfirst, by omega⟩
      · have hsecond : 1 < n := by
          by_contra hle
          have htwo : p.width * p.height ≤ p.width * 2 := Nat.mul_le_mul_left _ (by omega)
          omega
        exact mem_rows.mpr ⟨1, i - p.width / 2, hsecond, by omega, by omega⟩

end Whole

/-- A block is the three planes. -/
theorem stored_all {raw : Fin 3 → Nat → Option UInt8} {w h : Nat} :
    (∀ i, i < w * h + w * h / 4 + w * h / 4 → (stored raw w h i).isSome) ↔
      (∀ i, i < w * h → (raw 0 i).isSome) ∧ (∀ i, i < w * h / 4 → (raw 1 i).isSome) ∧
        ∀ i, i < w * h / 4 → (raw 2 i).isSome := by
  constructor
  · intro hall
    refine ⟨fun i hi => ?_, fun i hi => ?_, fun i hi => ?_⟩
    · have h0 := hall i (by omega)
      rwa [stored, if_pos hi] at h0
    · have h1 := hall (w * h + i) (by omega)
      rwa [stored, if_neg (by omega), if_pos (by omega), Nat.add_sub_cancel_left] at h1
    · have h2 := hall (w * h + w * h / 4 + i) (by omega)
      rwa [stored, if_neg (by omega), if_neg (by omega), Nat.sub_sub,
        Nat.add_sub_cancel_left] at h2
  · rintro ⟨h0, h1, h2⟩ i hi
    unfold stored
    split
    · exact h0 i ‹_›
    · split
      · exact h1 _ (by omega)
      · exact h2 _ (by omega)

/-! ## What it takes -/

section Calls
variable (p : Picture) (jpeg : Jpeg)

/-- Every block of rows is delivered. -/
def Delivered : Prop := ∀ k, 8 * p.vsf * k < p.height → jpeg.rawData k ≠ none

/-- The rows leave nothing out: of an odd number of columns, chroma does from
the third row on, and so does luma when three columns become two. -/
def Whole : Prop := p.width % 2 = 0 ∨ p.height < 4 ∧ p.hdown ≠ 2

variable {p jpeg} {k : Nat} {d : Decoding} {stop : Stop}

theorem lumaLen_whole : lumaLen p = p.width ↔ p.width % 2 = 0 ∨ p.hdown ≠ 2 := by
  have hcases : p.hdown = 0 ∨ p.hdown = 1 ∨ p.hdown = 2 := by
    unfold Picture.hdown
    split_ifs <;> simp
  unfold lumaLen
  split <;> omega

theorem scanned_whole (hpos : 0 < p.width * p.height) (hs : Scanned p k d)
    (hk : p.height ≤ 8 * p.vsf * k) :
    (∀ i, i < p.width * p.height + p.width * p.height / 4 + p.width * p.height / 4 →
      (stored d.raw p.width p.height i).isSome) ↔ Whole p := by
  have hchroma := chromaRows_whole hpos (n := 4 * p.vsf * k) (by rwa [← Nat.mul_assoc, ← Nat.mul_assoc])
  have h0 : ∀ i, (d.raw 0 i).isSome ↔ i ∈ lumaRows p (8 * p.vsf * k) := hs.luma
  have h1 : ∀ i, (d.raw 1 i).isSome ↔ i ∈ chromaRows p (4 * p.vsf * k) := hs.chroma1
  have h2 : ∀ i, (d.raw 2 i).isSome ↔ i ∈ chromaRows p (4 * p.vsf * k) := hs.chroma2
  rw [stored_all]
  simp only [h0, h1, h2]
  rw [lumaRows_whole hpos hk, hchroma, lumaLen_whole, Whole]
  tauto

/-- A row that is not delivered is not stored. -/
theorem scanned_stops (hpos : 0 < p.width * p.height) (hs : Scanned p k d)
    (hk : 8 * p.vsf * k < p.height) :
    ¬ ∀ i, i < p.width * p.height → (d.raw 0 i).isSome := by
  intro hall
  have hw : 0 < p.width := Nat.pos_of_mul_pos_right hpos
  have hlt : 8 * p.vsf * k * p.width < p.width * p.height := by
    rw [Nat.mul_comm p.width]
    exact Nat.mul_lt_mul_of_pos_right hk hw
  obtain ⟨r, x, hr, hx, he⟩ := mem_rows.mp ((hs.luma _).mp (hall _ hlt))
  have hrow : (r + 1) * p.width ≤ 8 * p.vsf * k * p.width := Nat.mul_le_mul_right _ hr
  have hlen := lumaLen_le (p := p)
  rw [Nat.add_one_mul] at hrow
  omega

/-- The asserted index that is too large is in a block behind the height. -/
theorem mod_of_overrun {i : Nat} (hk : 8 * p.vsf * k < p.height) (hv : p.vsf = 1)
    (hi : i ∈ chromaRows p (4 * p.vsf * (k + 1))) (hover : p.width * p.height / 4 ≤ i) :
    p.height % (8 * p.vsf) ≠ 0 := by
  have hbehind := overrun_last hv hi hover
  rw [hv] at hk hbehind ⊢
  omega

theorem eight_le (hpos : 0 < p.height) (hmod : p.height % (8 * p.vsf) = 0) : 8 ≤ p.height := by
  have hvsf : 0 < p.vsf := by rcases p.vsf_cases with hv | hv <;> omega
  exact (Nat.le_mul_of_pos_right 8 hvsf).trans (Nat.le_of_dvd hpos (Nat.dvd_of_mod_eq_zero hmod))

end Calls

/-! ## Exactly when -/

variable (jpeg : Jpeg) (buf1 buf2 : Rows) (yuv : Fin 3 → Ptr ι) (map capMap : Ptr ι)
  (width height size : Nat)

/-- The decoder keeps to the planes, and wherever the call returns, it passes on
what was produced, whatever the planes and the frame at `map` held before. -/
structure Passed : Prop where
  inside : InBounds (decodeJpegRaw jpeg buf1 buf2 width height).raw width height
  passes : ∀ f r ret m, (decodeJpegRaw jpeg buf1 buf2 width height).ret = some r →
    mjpegtoyuv420p jpeg buf1 buf2 yuv map capMap width height size ⟨f, []⟩ = some (ret, m) →
    PassesOn (Produced jpeg width height) r map f ret m

section Returned
variable {jpeg buf1 buf2 yuv map capMap width height size}

theorem passed_aborted (h : (decodeJpegRaw jpeg buf1 buf2 width height).ret = none)
    (hin : InBounds (decodeJpegRaw jpeg buf1 buf2 width height).raw width height) :
    Passed jpeg buf1 buf2 yuv map capMap width height size :=
  ⟨hin, fun _ r _ _ hr => by
    rw [h] at hr
    cases hr⟩

theorem Produced.stored {i : Nat} {v : UInt8} (h : Produced jpeg width height i v) (buf1 buf2 : Rows) :
    stored (decodeJpegRaw jpeg buf1 buf2 width height).raw width height i = some v :=
  h jpeg buf1 buf2 (.refl jpeg)

variable (hmap : ∀ k, (yuv k).base ≠ map.base) (hyuv : ∀ j k, j ≠ k → (yuv j).base ≠ (yuv k).base)
include hmap hyuv

/-- After a fatal error there is a frame that the copies change. -/
theorem passed_returned {r : Int}
    (h : (decodeJpegRaw jpeg buf1 buf2 width height).ret = some r) :
    Passed jpeg buf1 buf2 yuv map capMap width height size ↔
      InBounds (decodeJpegRaw jpeg buf1 buf2 width height).raw width height ∧
      (∀ i, i < width * height + width * height / 4 + width * height / 4 →
        ∃ v, Produced jpeg width height i v) ∧
      (r = -1 → width * height = 0) := by
  have hcall : ∀ f, mjpegtoyuv420p jpeg buf1 buf2 yuv map capMap width height size ⟨f, []⟩ =
      some (VideoConv.mjpegtoyuv420p
        (fun _ _ _ _ => ⟨r, (decodeJpegRaw jpeg buf1 buf2 width height).raw⟩) yuv map capMap width
        height size ⟨f, []⟩) := fun f => by
    rw [mjpegtoyuv420p, h]
    rfl
  have hpasses := fun f => passesOn_iff ⟨r, (decodeJpegRaw jpeg buf1 buf2 width height).raw⟩ hmap
    hyuv capMap (w := width) (h := height) size f
    (fun _ _ (hv : Produced jpeg width height _ _) => hv.stored buf1 buf2) rfl
  constructor
  · intro hpassed
    have hall := fun f => (hpasses f).mp (hpassed.passes f r _ _ h (hcall f))
    refine ⟨hpassed.inside, fun i hi => ?_, fun hr => ?_⟩
    · obtain ⟨v, hv, -⟩ := hall (fun _ => 0) i hi
      exact ⟨v, hv⟩
    · by_contra hne
      obtain ⟨v, hv, hv0⟩ := hall (fun _ => 0) 0 (by omega)
      obtain ⟨v', hv', hv1⟩ := hall (fun _ => 1) 0 (by omega)
      obtain rfl := Option.some.inj ((hv.stored buf1 buf2).symm.trans (hv'.stored buf1 buf2))
      exact absurd ((hv0 hr).trans (hv1 hr).symm) (by decide)
  · intro ⟨hin, hall, hr⟩
    refine ⟨hin, fun f r' ret m hr' hm => ?_⟩
    rw [h] at hr'
    cases hr'
    rw [hcall] at hm
    cases hm
    refine (hpasses f).mpr fun i hi => ?_
    obtain ⟨v, hv⟩ := hall i hi
    refine ⟨v, hv, fun hfatal => ?_⟩
    have h0 := hr hfatal
    omega

omit hmap hyuv in
theorem inBounds_none : InBounds (fun _ _ => none) width height where
  luma _ h := by cases h
  chroma1 _ h := by cases h
  chroma2 _ h := by cases h

omit hmap hyuv in
/-- Of a picture of no pixels nothing is stored. -/
theorem inBounds_empty (h0 : width * height = 0) :
    InBounds (decodeJpegRaw jpeg buf1 buf2 width height).raw width height := by
  cases hstart : jpeg.start with
  | none =>
    simp only [decodeJpegRaw, hstart]
    exact inBounds_none
  | some hd =>
    cases hacc : accept hd width height with
    | none =>
      simp only [decodeJpegRaw, hstart, hacc]
      exact inBounds_none
    | some p =>
      obtain ⟨d, stop, hended, hdec⟩ := decodeJpegRaw_ended jpeg hstart hacc buf1 buf2
      obtain ⟨hwidth, hheight, -⟩ := accept_some hacc
      subst hwidth hheight
      rw [hdec]
      cases hended with
      | error hk _ hs => exact scanned_inBounds hs hk.le
      | aborted hk _ _ _ hi _ =>
        obtain ⟨r, x, -, hx, -⟩ := mem_rows.mp hi
        rcases Nat.mul_eq_zero.mp h0 with h0 | h0 <;> omega
      | @done k _ hk hlast _ hs =>
        rcases Nat.mul_eq_zero.mp h0 with hzero | hzero
        · exact ⟨fun i hi => absurd ((hs.luma i).mp hi) (lumaRows_empty hzero i),
            fun i hi => absurd ((hs.chroma1 i).mp hi) (chromaRows_empty hzero i),
            fun i hi => absurd ((hs.chroma2 i).mp hi) (chromaRows_empty hzero i)⟩
        · exact scanned_inBounds hs (done_height hlast (by rw [hzero, Nat.zero_mod]))

/-- A picture of no pixels is stored nowhere. -/
theorem passed_empty (h0 : width * height = 0) :
    Passed jpeg buf1 buf2 yuv map capMap width height size := by
  cases hret : (decodeJpegRaw jpeg buf1 buf2 width height).ret with
  | none => exact passed_aborted hret (inBounds_empty h0)
  | some r =>
    refine (passed_returned hmap hyuv hret).mpr ⟨inBounds_empty h0, fun i hi => ?_, fun _ => h0⟩
    omega

variable (hpos : 0 < width * height)
include hpos

/-- A frame that is refused leaves the planes as allocated. -/
theorem not_passed_refused
    (h : decodeJpegRaw jpeg buf1 buf2 width height = ⟨fun _ _ => none, some (-1)⟩) :
    ¬ Passed jpeg buf1 buf2 yuv map capMap width height size := by
  rw [passed_returned hmap hyuv (congrArg Decoded.ret h)]
  rintro ⟨-, hall, -⟩
  obtain ⟨v, hv⟩ := hall 0 (by omega)
  have hstored := hv.stored buf1 buf2
  rw [h, stored, if_pos hpos] at hstored
  cases hstored

omit hmap hyuv hpos in
/-- What is produced of every byte is stored for every byte. -/
theorem stored_of_produced (hall : ∀ i, i < width * height + width * height / 4 + width * height / 4 →
      ∃ v, Produced jpeg width height i v) {d : Decoding}
    (hraw : (decodeJpegRaw jpeg buf1 buf2 width height).raw = d.raw) :
    ∀ i, i < width * height + width * height / 4 + width * height / 4 →
      (stored d.raw width height i).isSome := fun i hi => by
  obtain ⟨v, hv⟩ := hall i hi
  rw [← hraw, hv.stored buf1 buf2]
  rfl

omit [DecidableEq ι] hmap hyuv in
/-- Samples of other frames are no sample of this one. -/
theorem fresh_of_produced {hd : Header} {p : Picture} (hstart : jpeg.start = some hd)
    (hacc : accept hd width height = some p) (hw : width % 2 = 0) (hh : 2 ≤ height)
    (hdata : jpeg.rawData 0 ≠ none)
    (hall : ∀ i, i < width * height + width * height / 4 + width * height / 4 →
      ∃ v, Produced jpeg width height i v) : Fresh p := by
  by_contra hstale
  obtain ⟨rows, hrows⟩ := Option.ne_none_iff_exists'.mp hdata
  obtain ⟨hwidth, hheight, -⟩ := accept_some hacc
  have hwide : 0 < width := Nat.pos_of_mul_pos_right hpos
  have htwo : width * 2 ≤ width * height := Nat.mul_le_mul_left _ hh
  obtain ⟨jpeg₀, jpeg₁, buf₀, buf₁, hsame₀, hsame₁, hne⟩ := decodeJpegRaw_stale hstart hacc hrows
    (by rwa [hwidth]) (by rwa [hwidth]) (by rwa [hheight]) hstale
  rw [hwidth] at hne
  have hagree : ∀ i, i < width * height + width * height / 4 + width * height / 4 →
      stored (decodeJpegRaw jpeg₀ buf₀ buf₀ width height).raw width height i =
        stored (decodeJpegRaw jpeg₁ buf₁ buf₁ width height).raw width height i := fun i hi => by
    obtain ⟨v, hv⟩ := hall i hi
    rw [hv jpeg₀ buf₀ buf₀ hsame₀, hv jpeg₁ buf₁ buf₁ hsame₁]
  rcases hne with hne | hne
  · have hluma := hagree (width - 1) (by omega)
    unfold stored at hluma
    rw [if_pos (by omega), if_pos (by omega)] at hluma
    exact hne hluma
  · have hchroma := hagree (width * height + (width / 2 - 1)) (by omega)
    unfold stored at hchroma
    rw [if_neg (by omega), if_pos (by omega), if_neg (by omega), if_pos (by omega),
      Nat.add_sub_cancel_left] at hchroma
    exact hne hchroma

theorem passed_accepted {hd : Header} {p : Picture} (hstart : jpeg.start = some hd)
    (hacc : accept hd width height = some p) :
    Passed jpeg buf1 buf2 yuv map capMap width height size ↔
      Delivered p jpeg ∧ height % (8 * p.vsf) = 0 ∧ width % 2 = 0 ∧ Fresh p ∧
        jpeg.finish = true := by
  obtain ⟨d, stop, hended, hdec⟩ := decodeJpegRaw_ended jpeg hstart hacc buf1 buf2
  have hraw := congrArg Decoded.raw hdec
  have hret := congrArg Decoded.ret hdec
  obtain ⟨hwidth, hheight, -⟩ := accept_some hacc
  subst hwidth hheight
  cases hended with
  | error hk hnone hs =>
    refine iff_of_false (fun h => ?_) fun h => h.1 _ hk hnone
    have hall := ((passed_returned hmap hyuv hret).mp h).2.1
    exact scanned_stops hpos hs hk (stored_all.mp (stored_of_produced hall hraw)).1
  | aborted hk hdata hluma hv hi hover =>
    obtain ⟨r, x, -, hx, -⟩ := mem_rows.mp hi
    refine iff_of_false (fun h => ?_) fun h => mod_of_overrun hk hv hi hover h.2.1
    have hin := h.inside
    rw [hraw] at hin
    exact not_inBounds hluma (overrun_last hv hi hover) (lumaLen_pos (by omega)) hin
  | @done k _ hk hlast hdata hs =>
    have hdelivered : Delivered p jpeg := fun j hj =>
      hdata j (Nat.lt_of_mul_lt_mul_left (hj.trans_le hk))
    have hwhole := scanned_whole hpos hs hk
    have hdone : (decodeJpegRaw jpeg buf1 buf2 p.width p.height).ret =
        some (if jpeg.finish then (if jpeg.warningSeen then 1 else 0) else -1) := by
      rw [hret]
      simp only [returned]
      split <;> rfl
    constructor
    · intro h
      obtain ⟨hin, hall, hfatal⟩ := (passed_returned hmap hyuv hdone).mp h
      have hstored := stored_of_produced hall hraw
      have hlen : lumaLen p = p.width := (lumaRows_whole hpos hk).mp fun i hi =>
        (hs.luma i).mp ((stored_all.mp hstored).1 i hi)
      have hwide : 0 < p.width := Nat.pos_of_mul_pos_right hpos
      rw [hraw] at hin
      have hmod := mod_of_inBounds hs.luma hk (by omega) hin
      have hrows := eight_le (Nat.pos_of_mul_pos_left hpos) hmod
      have heven : p.width % 2 = 0 :=
        (hwhole.mp hstored).resolve_right fun hlow => absurd hlow.1 (by omega)
      have hfinish : jpeg.finish = true := by
        by_contra hne
        refine absurd (hfatal ?_) (by omega)
        exact if_neg hne
      exact ⟨hdelivered, hmod, heven, fresh_of_produced hpos hstart hacc heven (by omega)
        (hdelivered 0 (by omega)) hall, hfinish⟩
    · rintro ⟨-, hmod, heven, hfresh, hfinish⟩
      have hin : InBounds d.raw p.width p.height := scanned_inBounds hs (done_height hlast hmod)
      have hstored := hwhole.mpr (.inl heven)
      rw [if_pos hfinish] at hdone
      refine (passed_returned hmap hyuv hdone).mpr ⟨hraw ▸ hin, fun i hi => ?_, fun hr => ?_⟩
      · obtain ⟨v, hv⟩ := Option.isSome_iff_exists.mp (hstored i hi)
        refine ⟨v, fun jpeg' buf1' buf2' hsame => ?_⟩
        rw [decodeJpegRaw_same hsame hstart hacc hfresh buf1 buf2, hraw, hv]
      · split at hr <;> cases hr

end Returned

theorem passed_iff (jpeg : Jpeg) (buf1 buf2 : Rows) {yuv : Fin 3 → Ptr ι} {map : Ptr ι}
    (hmap : ∀ k, (yuv k).base ≠ map.base) (hyuv : ∀ j k, j ≠ k → (yuv j).base ≠ (yuv k).base)
    (capMap : Ptr ι) (width height size : Nat) :
    Passed jpeg buf1 buf2 yuv map capMap width height size ↔
      width * height = 0 ∨ ∃ hd p, jpeg.start = some hd ∧ accept hd width height = some p ∧
        Delivered p jpeg ∧ height % (8 * p.vsf) = 0 ∧ width % 2 = 0 ∧ Fresh p ∧
          jpeg.finish = true := by
  by_cases h0 : width * height = 0
  · exact iff_of_true (passed_empty hmap hyuv h0) (.inl h0)
  have hpos := Nat.pos_of_ne_zero h0
  rw [or_iff_right h0]
  cases hstart : jpeg.start with
  | none =>
    refine iff_of_false (not_passed_refused hmap hyuv hpos (by rw [decodeJpegRaw, hstart])) ?_
    rintro ⟨hd, p, hs, -⟩
    cases hs
  | some hd =>
    cases hacc : accept hd width height with
    | none =>
      refine iff_of_false (not_passed_refused hmap hyuv hpos ?_) ?_
      · simp only [decodeJpegRaw, hstart, hacc]
      · rintro ⟨hd', p, hs, ha, -⟩
        cases hs
        rw [hacc] at ha
        cases ha
    | some p =>
      rw [passed_accepted hmap hyuv hpos hstart hacc]
      constructor
      · intro h
        exact ⟨hd, p, rfl, hacc, h⟩
      · rintro ⟨hd', p', hs, ha, h⟩
        cases hs
        rw [hacc] at ha
        cases ha
        exact h

/-- The rows allocated where all components are sampled alike have room for the samples. -/
def Roomy : Prop :=
  ∀ hd p, jpeg.start = some hd → accept hd width height = some p → p.hsf = 1 →
    hd.columns 1 ≤ hd.outputWidth

theorem roomy_iff : Roomy jpeg width height ↔ ∀ hd p, jpeg.start = some hd →
    accept hd width height = some p → p.hsf = 1 → p.outputWidth % 8 = 0 := by
  refine forall_congr' fun hd => forall_congr' fun p => forall_congr' fun _ =>
    forall_congr' fun hacc => forall_congr' fun h1 => ?_
  obtain ⟨-, -, -, -, hwidth⟩ := accept_some hacc
  rw [(accept_columns hacc).2 1, columns, if_pos (.inr h1), hwidth]
  omega

/-- What is stored has room, and what was produced is passed on. -/
structure Honest : Prop where
  rows : Roomy jpeg width height
  passed : Passed jpeg buf1 buf2 yuv map capMap width height size

/-- **A frame is passed on as it should be exactly if it is empty, or accepted,
with all its rows delivered and its height in whole blocks of them, its width
even and its samples fresh, and libjpeg finishes it**; the rows that are
allocated must have been enough. -/
theorem mjpeg_passes_on_iff (jpeg : Jpeg) (buf1 buf2 : Rows) {yuv : Fin 3 → Ptr ι} {map : Ptr ι}
    (hmap : ∀ k, (yuv k).base ≠ map.base) (hyuv : ∀ j k, j ≠ k → (yuv j).base ≠ (yuv k).base)
    (capMap : Ptr ι) (width height size : Nat) :
    Honest jpeg buf1 buf2 yuv map capMap width height size ↔
      (∀ hd p, jpeg.start = some hd → accept hd width height = some p → p.hsf = 1 →
        p.outputWidth % 8 = 0) ∧
      (width * height = 0 ∨ ∃ hd p, jpeg.start = some hd ∧ accept hd width height = some p ∧
        Delivered p jpeg ∧ height % (8 * p.vsf) = 0 ∧ width % 2 = 0 ∧ Fresh p ∧
          jpeg.finish = true) := by
  rw [← roomy_iff, ← passed_iff jpeg buf1 buf2 hmap hyuv capMap width height size]
  exact ⟨fun h => ⟨h.rows, h.passed⟩, fun h => ⟨h.1, h.2⟩⟩

/-! ## A frame and a torn one -/

open SmartPrince.Common.CameraState

def planes (k : Fin 3) : Ptr Buf := ⟨.yuv k, 0⟩

theorem planes_map (k : Fin 3) : (planes k).base ≠ imageVirgin.base := nofun

theorem planes_apart (j k : Fin 3) (h : j ≠ k) : (planes j).base ≠ (planes k).base := fun he =>
  h (Buf.yuv.inj he)

theorem mjpeg_passes_on_vga :
    Honest (camera420 640 480) zeroRows zeroRows planes imageVirgin ⟨.frame 0, 0⟩ 640 480 20000 ↔
      (∀ hd p, (camera420 640 480).start = some hd → accept hd 640 480 = some p → p.hsf = 1 →
        p.outputWidth % 8 = 0) ∧
      (640 * 480 = 0 ∨ ∃ hd p, (camera420 640 480).start = some hd ∧ accept hd 640 480 = some p ∧
        Delivered p (camera420 640 480) ∧ 480 % (8 * p.vsf) = 0 ∧ 640 % 2 = 0 ∧ Fresh p ∧
          (camera420 640 480).finish = true) :=
  mjpeg_passes_on_iff (camera420 640 480) zeroRows zeroRows planes_map planes_apart _ _ _ _

/-- The header can be read and nothing else. -/
def torn : Jpeg := { camera420 16 16 with rawData := fun _ => none }

/-- The planes are copied although nothing was decoded. -/
theorem mjpeg_torn_passed_on :
    ¬ Honest torn zeroRows zeroRows planes imageVirgin ⟨.frame 0, 0⟩ 16 16 600 := by
  obtain ⟨p, hp⟩ : ∃ p, accept ⟨3, factors420, factors420, 16, 16⟩ 16 16 = some p :=
    Option.isSome_iff_exists.mp (by decide)
  intro h
  obtain ⟨hall, -⟩ := (passed_accepted planes_map planes_apart (by decide) rfl hp).mp h.passed
  refine hall 0 ?_ rfl
  rw [(accept_some hp).2.1, Nat.mul_zero]
  decide

end SmartPrince.Common.MjpegSoundness
