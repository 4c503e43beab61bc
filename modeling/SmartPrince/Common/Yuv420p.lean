import SmartPrince.Lib.Memory

/-! # Planar 4:2:0 frames in memory

A YUV420P frame of `width` by `height` pixels is one block: the luma plane,
then the U and V planes of a quarter of its size each. The converters and the
rotation all produce one. Here are its layout, the facts about reading a byte
of it, and what is known of a memory into which a frame is being written: the
rules of `Writes` carry a converter's proof from turn to turn. -/
namespace SmartPrince.Common.Yuv420p
open SmartPrince.Lib.Memory

/-- The three planes of a frame, each in raster order. -/
structure Frame where
  y : Nat → UInt8
  u : Nat → UInt8
  v : Nat → UInt8

/-- The bytes of a frame, counted from the start of its block. -/
def Frame.bytes (F : Frame) (width height i : Nat) : UInt8 :=
  if i < width * height then F.y i
  else if i < width * height + width * height / 4 then F.u (i - width * height)
  else F.v (i - width * height - width * height / 4)

/-- Two frames that have the same samples. -/
structure Frame.Same (width height : Nat) (F G : Frame) : Prop where
  y : ∀ k, k < width * height → F.y k = G.y k
  u : ∀ k, k < width * height / 4 → F.u k = G.u k
  v : ∀ k, k < width * height / 4 → F.v k = G.v k

theorem Frame.Same.symm {w h : Nat} {F G : Frame} (hs : F.Same w h G) : G.Same w h F :=
  ⟨fun k hk => (hs.y k hk).symm, fun k hk => (hs.u k hk).symm, fun k hk => (hs.v k hk).symm⟩

theorem Frame.Same.trans {w h : Nat} {F G H : Frame} (h1 : F.Same w h G) (h2 : G.Same w h H) :
    F.Same w h H :=
  ⟨fun k hk => (h1.y k hk).trans (h2.y k hk), fun k hk => (h1.u k hk).trans (h2.u k hk),
    fun k hk => (h1.v k hk).trans (h2.v k hk)⟩

theorem Frame.Same.bytes {w h i : Nat} {F G : Frame} (hs : F.Same w h G)
    (hi : i < w * h + w * h / 4 + w * h / 4) : F.bytes w h i = G.bytes w h i := by
  simp only [Frame.bytes]
  split
  · exact hs.y _ (by omega)
  · split
    · exact hs.u _ (by omega)
    · exact hs.v _ (by omega)

/-- The block of a frame is that of the frame turned upright. -/
theorem Frame.Same.swap {w h : Nat} {F G : Frame} (hs : F.Same w h G) : F.Same h w G := by
  obtain ⟨hy, hu, hv⟩ := hs
  rw [Nat.mul_comm w] at hy hu hv
  exact ⟨hy, hu, hv⟩

/-- An even frame's block is its luma plane and two quarter planes. -/
theorem frame_size {w h : Nat} (hw : w % 2 = 0) (hh : h % 2 = 0) :
    w / 2 * (h / 2) = w * h / 4 ∧ w * h = 4 * (w * h / 4) ∧ w * h * 3 / 2 = 6 * (w * h / 4) := by
  obtain ⟨a, rfl⟩ : ∃ a, w = 2 * a := ⟨w / 2, by omega⟩
  obtain ⟨b, rfl⟩ : ∃ b, h = 2 * b := ⟨h / 2, by omega⟩
  have e : 2 * a * (2 * b) = 4 * (a * b) := by ring
  rw [e, Nat.mul_div_cancel_left a two_pos, Nat.mul_div_cancel_left b two_pos]
  omega

/-! ## The planes of a block -/

variable {ι : Type}

def uPlane (map : Ptr ι) (width height : Nat) : Ptr ι := map + width * height

def vPlane (map : Ptr ι) (width height : Nat) : Ptr ι :=
  map + width * height + width * height / 4

/-- The frame that lies at `map`. -/
def getFrame (map : Ptr ι) (width height : Nat) (f : Ptr ι → UInt8) : Frame where
  y k := f (map + k)
  u k := f (uPlane map width height + k)
  v k := f (vPlane map width height + k)

variable {map : Ptr ι} {w h : Nat} {F G : Frame} {f : Ptr ι → UInt8} {q : Ptr ι}

theorem getFrame_swap : getFrame map h w f = getFrame map w h f := by
  simp only [getFrame, uPlane, vPlane, Nat.mul_comm h w]

@[simp] theorem uPlane_base : (uPlane map w h).base = map.base := rfl
@[simp] theorem vPlane_base : (vPlane map w h).base = map.base := rfl

theorem uPlane_add (i : Nat) : uPlane map w h + i = map + (w * h + i) := by
  rw [uPlane, Ptr.add_assoc]

theorem vPlane_add (i : Nat) : vPlane map w h + i = map + (w * h + w * h / 4 + i) := by
  rw [vPlane, Ptr.add_assoc, Ptr.add_assoc, Nat.add_assoc]

theorem getFrame_bytes {i : Nat} : f (map + i) = (getFrame map w h f).bytes w h i := by
  simp only [Frame.bytes, getFrame, uPlane_add, vPlane_add]
  split
  · rfl
  · split
    · congr 2; omega
    · congr 2; omega

/-- Two memories hold the same frame where they hold the same block. -/
theorem getFrame_same {g : Ptr ι → UInt8} :
    (getFrame map w h f).Same w h (getFrame map w h g) ↔
      ∀ i, i < w * h + w * h / 4 + w * h / 4 → f (map + i) = g (map + i) := by
  constructor
  · intro hs i hi
    exact getFrame_bytes.trans ((hs.bytes hi).trans getFrame_bytes.symm)
  · intro hi
    refine ⟨fun k hk => hi k (by omega), fun k hk => ?_, fun k hk => ?_⟩
    · simp only [getFrame, uPlane_add]
      exact hi _ (by omega)
    · simp only [getFrame, vPlane_add]
      exact hi _ (by omega)

/-- Every byte of the block belongs to one of the planes. -/
theorem span_block : Span map (w * h + w * h / 4 + w * h / 4) q ↔
    Span map (w * h) q ∨ Span (uPlane map w h) (w * h / 4) q ∨
      Span (vPlane map w h) (w * h / 4) q := by
  constructor
  · intro hs
    obtain ⟨i, hi, rfl⟩ := hs.eq_add
    by_cases hy : i < w * h
    · exact .inl (span_add.mpr hy)
    · by_cases hu : i < w * h + w * h / 4
      · refine .inr (.inl ?_)
        rw [show map + i = uPlane map w h + (i - w * h) by rw [uPlane_add]; congr 1; omega, span_add]
        omega
      · refine .inr (.inr ?_)
        rw [show map + i = vPlane map w h + (i - w * h - w * h / 4) by
          rw [vPlane_add]; congr 1; omega, span_add]
        omega
  · rintro (hs | hs | hs) <;> obtain ⟨i, hi, rfl⟩ := hs.eq_add
    · rw [span_add]; omega
    · rw [uPlane_add, span_add]; omega
    · rw [vPlane_add, span_add]; omega

theorem y_not_u (hy : Span map (w * h) q) : ¬ Span (uPlane map w h) (w * h / 4) q := by
  rintro ⟨_, h3, _⟩
  obtain ⟨_, _, h2⟩ := hy
  rw [uPlane, Ptr.add_off] at h3; omega

theorem y_not_v (hy : Span map (w * h) q) : ¬ Span (vPlane map w h) (w * h / 4) q := by
  rintro ⟨_, h3, _⟩
  obtain ⟨_, _, h2⟩ := hy
  rw [vPlane, Ptr.add_off, Ptr.add_off] at h3; omega

theorem u_not_v (hu : Span (uPlane map w h) (w * h / 4) q) :
    ¬ Span (vPlane map w h) (w * h / 4) q := by
  rintro ⟨_, h3, _⟩
  obtain ⟨_, _, h2⟩ := hu
  rw [uPlane, Ptr.add_off] at h2
  rw [vPlane, Ptr.add_off, Ptr.add_off] at h3; omega

variable [DecidableEq ι]

/-- Memory `f` after the first `n` luma, `a` U and `b` V samples of `F` were written at `map`. -/
def partFrame (map : Ptr ι) (width height : Nat) (F : Frame) (n a b : Nat) (f : Ptr ι → UInt8) :
    Ptr ι → UInt8 :=
  patch map n F.y (patch (uPlane map width height) a F.u (patch (vPlane map width height) b F.v f))

/-- Memory `f` with the whole frame `F` at `map`. -/
def putFrame (map : Ptr ι) (width height : Nat) (F : Frame) (f : Ptr ι → UInt8) : Ptr ι → UInt8 :=
  partFrame map width height F (width * height) (width * height / 4) (width * height / 4) f

theorem partFrame_base {n a b : Nat} (hq : q.base ≠ map.base) :
    partFrame map w h F n a b f q = f q := by
  rw [partFrame, patch_base hq, patch_base (by simpa using hq), patch_base (by simpa using hq)]

theorem putFrame_y {k : Nat} (hk : k < w * h) : putFrame map w h F f (map + k) = F.y k :=
  patch_in hk

theorem putFrame_u {k : Nat} (hk : k < w * h / 4) :
    putFrame map w h F f (uPlane map w h + k) = F.u k := by
  rw [putFrame, partFrame, patch_out, patch_in hk]
  rw [uPlane_add, span_add]; omega

theorem putFrame_v {k : Nat} (hk : k < w * h / 4) :
    putFrame map w h F f (vPlane map w h + k) = F.v k := by
  rw [putFrame, partFrame, patch_out, patch_out, patch_in hk]
  · rw [vPlane_add, Nat.add_assoc, ← uPlane_add, span_add]; omega
  · rw [vPlane_add, span_add]; omega

theorem putFrame_out (hq : ¬ Span map (w * h + w * h / 4 + w * h / 4) q) :
    putFrame map w h F f q = f q := by
  rw [span_block, not_or, not_or] at hq
  rw [putFrame, partFrame, patch_out hq.1, patch_out hq.2.1, patch_out hq.2.2]

theorem putFrame_congr (hs : F.Same w h G) : putFrame map w h F f = putFrame map w h G f := by
  rw [putFrame, putFrame, partFrame, partFrame, patch_congr hs.y, patch_congr hs.u,
    patch_congr hs.v]

/-- A byte of the block, by its index from the start. -/
theorem putFrame_bytes {i : Nat} (hi : i < w * h + w * h / 4 + w * h / 4) :
    putFrame map w h F f (map + i) = F.bytes w h i := by
  rw [Frame.bytes]
  split
  · next hy => exact putFrame_y hy
  · next hy =>
    split
    · next hu =>
      rw [show map + i = uPlane map w h + (i - w * h) by rw [uPlane_add]; congr 1; omega]
      exact putFrame_u (by omega)
    · next hu =>
      rw [show map + i = vPlane map w h + (i - w * h - w * h / 4) by
        rw [vPlane_add]; congr 1; omega]
      exact putFrame_v (by omega)

/-- A frame written as one block. -/
theorem patch_block : patch map (w * h + w * h / 4 + w * h / 4) (F.bytes w h) f =
    putFrame map w h F f := by
  funext p
  by_cases hs : Span map (w * h + w * h / 4 + w * h / 4) p
  · obtain ⟨i, hi, rfl⟩ := hs.eq_add
    rw [patch_in hi, putFrame_bytes hi]
  · rw [patch_out hs, putFrame_out hs]

/-- A frame written plane by plane. -/
theorem patch_planes : patch (vPlane map w h) (w * h / 4) F.v
    (patch (uPlane map w h) (w * h / 4) F.u (patch map (w * h) F.y f)) = putFrame map w h F f := by
  rw [patch_comm (fun p hv hu => u_not_v hu hv), patch_comm (fun p hv hy => y_not_v hy hv),
    patch_comm (fun p hu hy => y_not_u hy hu)]
  rfl

theorem getFrame_putFrame : (getFrame map w h (putFrame map w h F f)).Same w h F :=
  ⟨fun _ hk => putFrame_y hk, fun _ hk => putFrame_u hk, fun _ hk => putFrame_v hk⟩

/-! ## A frame being written -/

/-- From `m0` to `m` the first `n` luma, `a` U and `b` V samples of `F` were
written at `map`, each byte once and no other, reading only where `reads` allows. -/
structure Writes (map : Ptr ι) (width height : Nat) (F : Frame) (reads : Ptr ι → Prop)
    (m0 : Mem ι) (n a b : Nat) (m : Mem ι) : Prop where
  byte : m.byte = partFrame map width height F n a b m0.byte
  stores : ∀ q, m.log.count (.store q) = m0.log.count (.store q) +
    (once map n q + once (uPlane map width height) a q + once (vPlane map width height) b q)
  loads : ∀ q, .load q ∈ m.log → .load q ∈ m0.log ∨ reads q

namespace Writes
variable {reads : Ptr ι → Prop} {m0 m : Mem ι} {n a b : Nat}

theorem start : Writes map w h F reads m0 0 0 0 m0 :=
  ⟨by simp [partFrame], fun q => by simp [once], fun _ hq => .inl hq⟩

theorem input (hm : Writes map w h F reads m0 n a b m) (hq : q.base ≠ map.base) :
    m.byte q = m0.byte q := by
  rw [hm.byte, partFrame_base hq]

theorem load (hm : Writes map w h F reads m0 n a b m) (hq : reads q) :
    Writes map w h F reads m0 n a b (m.load q).2 := by
  refine ⟨hm.byte, fun p => ?_, fun p hp => ?_⟩
  · rw [← hm.stores p, Mem.load]; simp
  · rcases List.mem_cons.mp hp with he | hp
    · cases he; exact .inr hq
    · exact hm.loads p hp

theorem luma (hm : Writes map w h F reads m0 n a b m) :
    Writes map w h F reads m0 (n + 1) a b (m.store (map + n) (F.y n)) := by
  refine ⟨?_, fun p => ?_, fun p hp => hm.loads p (by simpa using hp)⟩
  · rw [Mem.store_byte, hm.byte, partFrame, update_patch, partFrame]
  · rw [Mem.store_log, List.count_cons, hm.stores, once_succ]
    simp only [beq_iff_eq, Access.store.injEq]
    omega

theorem copy_luma (hm : Writes map w h F reads m0 n a b m) (hq : reads q)
    (hb : q.base ≠ map.base) (hv : F.y n = m0.byte q) :
    Writes map w h F reads m0 (n + 1) a b (m.copy (map + n) q) := by
  have he : m.copy (map + n) q = (m.load q).2.store (map + n) (F.y n) := by
    rw [hv, ← hm.input hb]; rfl
  rw [he]
  exact (hm.load hq).luma

theorem u (hm : Writes map w h F reads m0 n a b m) (hn : n ≤ w * h) :
    Writes map w h F reads m0 n (a + 1) b (m.store (uPlane map w h + a) (F.u a)) := by
  refine ⟨?_, fun p => ?_, fun p hp => hm.loads p (by simpa using hp)⟩
  · rw [Mem.store_byte, hm.byte, partFrame, update_patch_out, update_patch, partFrame]
    rw [uPlane_add, span_add]; omega
  · rw [Mem.store_log, List.count_cons, hm.stores, once_succ]
    simp only [beq_iff_eq, Access.store.injEq]
    omega

theorem v (hm : Writes map w h F reads m0 n a b m) (hn : n ≤ w * h) (ha : a ≤ w * h / 4) :
    Writes map w h F reads m0 n a (b + 1) (m.store (vPlane map w h + b) (F.v b)) := by
  refine ⟨?_, fun p => ?_, fun p hp => hm.loads p (by simpa using hp)⟩
  · rw [Mem.store_byte, hm.byte, partFrame, update_patch_out, update_patch_out, update_patch,
      partFrame]
    · rw [vPlane_add, Nat.add_assoc, ← uPlane_add, span_add]; omega
    · rw [vPlane_add, span_add]; omega
  · rw [Mem.store_log, List.count_cons, hm.stores, once_succ]
    simp only [beq_iff_eq, Access.store.injEq]
    omega

/-- A whole frame: each byte of the block was stored exactly once, no other at all. -/
theorem stored_once
    (hm : Writes map w h F reads m0 (w * h) (w * h / 4) (w * h / 4) m) (q : Ptr ι) :
    m.log.count (.store q) = m0.log.count (.store q) +
      once map (w * h + w * h / 4 + w * h / 4) q := by
  rw [hm.stores]
  simp only [once, span_block]
  by_cases h1 : Span map (w * h) q
  · simp [h1, y_not_u h1, y_not_v h1]
  · by_cases h2 : Span (uPlane map w h) (w * h / 4) q
    · simp [h1, h2, u_not_v h2]
    · simp [h1, h2]

end Writes

end SmartPrince.Common.Yuv420p
