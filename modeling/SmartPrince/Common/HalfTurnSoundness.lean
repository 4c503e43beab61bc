import SmartPrince.Common.RotateSoundness

/-! # The half turn as two quarter turns

The fast path of 180 degrees swaps words, the quarter turns copy bytes. On
planes of whole word pairs the swaps meet without a remainder, and either way
each plane ends up mirrored. -/
namespace SmartPrince.Common.HalfTurnSoundness
open SmartPrince.Lib.Memory SmartPrince.Lib.Plane SmartPrince.Common.CameraState
open SmartPrince.Common.Yuv420p SmartPrince.Common.Rotate SmartPrince.Common.RotateSoundness

/-- The planes of such a frame are whole word pairs. -/
theorem plane_pairs {w h : Nat} (hw : w % 16 = 0) (hh : h % 16 = 0) :
    w * h % 8 = 0 ∧ w * h / 4 % 8 = 0 := by
  obtain ⟨a, rfl⟩ := Nat.dvd_of_mod_eq_zero hw
  obtain ⟨b, rfl⟩ := Nat.dvd_of_mod_eq_zero hh
  have e : 16 * a * (16 * b) = 256 * (a * b) := by ring
  rw [e]
  omega

section Frames
variable {w h : Nat} (hw : w % 16 = 0) (hh : h % 16 = 0) (F : Frame)
include hw hh

theorem halfFrame_mirrored : (halfFrame w h F).Same w h (turned rot180 w h F) := by
  obtain ⟨hy, hc⟩ := plane_pairs hw hh
  obtain ⟨h4, -, -⟩ := frame_size (w := w) (h := h) (by omega) (by omega)
  refine ⟨fun k _ => ?_, fun k _ => ?_, fun k _ => ?_⟩
  · exact congrArg F.y (halfTurned_eq hy)
  · exact congrArg F.u ((halfTurned_eq hc).trans (by rw [h4]))
  · exact congrArg F.v ((halfTurned_eq hc).trans (by rw [h4]))

/-- A frame turned, and turned again at the swapped dimensions. -/
theorem turned_turned : (turned rot90 h w (turned rot90 w h F)).Same w h (turned rot180 w h F) := by
  obtain ⟨h4, -, -⟩ := frame_size (w := w) (h := h) (by omega) (by omega)
  refine ⟨fun k hk => rot90_rot90 F.y hk, fun k hk => ?_, fun k hk => ?_⟩
  · exact rot90_rot90 F.u (h4.symm ▸ hk)
  · exact rot90_rot90 F.v (h4.symm ▸ hk)

end Frames

section Maps
variable (cnt cnt' : Context) {w h : Nat} (hw : w % 16 = 0) (hh : h % 16 = 0) {map : Ptr Buf}
  (m : Mem Buf)
include hw hh

omit hw hh in
theorem half_turn_byte : (rotateMap (turning cnt 180 w h) map m).2.byte =
    putFrame map w h (halfFrame w h (getFrame map w h m.byte)) m.byte :=
  (rotateMap_half rfl rfl rfl rfl m).2

theorem half_turn_frame : (getFrame map w h (rotateMap (turning cnt 180 w h) map m).2.byte).Same w h
    (turned rot180 w h (getFrame map w h m.byte)) := by
  rw [half_turn_byte]
  exact getFrame_putFrame.trans (halfFrame_mirrored hw hh _)

theorem quarter_turns_frame (hb : map.base ≠ .tempBuf) :
    (getFrame map w h (rotateMap (turning cnt' 90 h w) map
      (rotateMap (turning cnt 90 w h) map m).2).2.byte).Same w h
    (turned rot180 w h (getFrame map w h m.byte)) := by
  have hw2 : w % 2 = 0 := by omega
  have hh2 : h % 2 = 0 := by omega
  have hfirst := turning_frame cnt hw2 hh2 hb m (.inl ⟨rfl, rfl⟩)
  have hsecond := turning_frame cnt' hh2 hw2 hb (rotateMap (turning cnt 90 w h) map m).2
    (.inl ⟨rfl, rfl⟩)
  rw [getFrame_swap] at hfirst hsecond
  have hagain : (rotated 90 h w _).Same h w _ := rotated_congr hh2 hw2 hfirst.swap
  exact hsecond.swap.trans (hagain.swap.trans (turned_turned hw hh _))

end Maps

/-- **The half turn mirrors each plane in place, as two quarter turns do.** -/
theorem half_turn_mirrors (cnt cnt' cnt'' : Context) {w h : Nat} (hw : w % 16 = 0)
    (hh : h % 16 = 0) {map : Ptr Buf} (hb : map.base ≠ .tempBuf) (m : Mem Buf) :
    (∀ p ∈ planes map w h, ∀ i, i < p.W * p.H →
      (rotateMap (turning cnt 180 w h) map m).2.byte (p.start + i) =
        m.byte (p.start + (p.W * p.H - 1 - i))) ∧
    (∀ q, ¬ Span map (w * h * 3 / 2) q →
      (rotateMap (turning cnt 180 w h) map m).2.byte q = m.byte q) ∧
    (∀ i, i < w * h * 3 / 2 →
      (rotateMap (turning cnt'' 90 h w) map
        (rotateMap (turning cnt' 90 w h) map m).2).2.byte (map + i) =
          (rotateMap (turning cnt 180 w h) map m).2.byte (map + i)) := by
  obtain ⟨h4, -, h6⟩ := frame_size (w := w) (h := h) (by omega) (by omega)
  have hsize : w * h * 3 / 2 = w * h + w * h / 4 + w * h / 4 := by omega
  have hhalf : (getFrame map w h _).Same w h _ := half_turn_frame cnt hw hh m
  refine ⟨fun p hp i hi => ?_, fun q hq => ?_, fun i hi => ?_⟩
  · simp only [planes, List.mem_cons, List.not_mem_nil, or_false] at hp
    obtain rfl | rfl | rfl := hp
    · exact hhalf.y i hi
    · exact hhalf.u i (h4 ▸ hi)
    · exact hhalf.v i (h4 ▸ hi)
  · rw [half_turn_byte]
    exact putFrame_out (hsize ▸ hq)
  · have hboth := (quarter_turns_frame cnt' cnt'' hw hh m hb).trans hhalf.symm
    exact getFrame_same.mp hboth i (hsize ▸ hi)

theorem half_turn_mirrors_square :
    (∀ p ∈ planes imageVirgin 16 16, ∀ i, i < p.W * p.H →
      (rotateMap (turning Context.zero 180 16 16) imageVirgin
        ⟨fun p => UInt8.ofInt p.off, []⟩).2.byte (p.start + i) =
          UInt8.ofInt (p.start + (p.W * p.H - 1 - i)).off) ∧
    (∀ q, ¬ Span imageVirgin (16 * 16 * 3 / 2) q →
      (rotateMap (turning Context.zero 180 16 16) imageVirgin
        ⟨fun p => UInt8.ofInt p.off, []⟩).2.byte q = UInt8.ofInt q.off) ∧
    (∀ i, i < 16 * 16 * 3 / 2 →
      (rotateMap (turning Context.zero 90 16 16) imageVirgin
        (rotateMap (turning Context.zero 90 16 16) imageVirgin
          ⟨fun p => UInt8.ofInt p.off, []⟩).2).2.byte (imageVirgin + i) =
          (rotateMap (turning Context.zero 180 16 16) imageVirgin
            ⟨fun p => UInt8.ofInt p.off, []⟩).2.byte (imageVirgin + i)) :=
  half_turn_mirrors Context.zero Context.zero Context.zero (w := 16) (h := 16) (by decide)
    (by decide) (show imageVirgin.base ≠ .tempBuf by decide) ⟨fun p => UInt8.ofInt p.off, []⟩

end SmartPrince.Common.HalfTurnSoundness
