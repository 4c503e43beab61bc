import SmartPrince.Common.Untouched
import SmartPrince.Lib.Hidden

/-! # What the capture path does not see

A converter reads through the cursors it was started with, so that in two
memories that agree on the objects those point to it does the same. From the
converters this goes up to `video_v4l2_next`. -/
namespace SmartPrince.Common.Unseen
open SmartPrince.Lib.CInt SmartPrince.Lib.Loop SmartPrince.Lib.Memory SmartPrince.Lib.Word
open SmartPrince.Lib.Program SmartPrince.Lib.Hidden
open SmartPrince.Common.CameraState SmartPrince.Common.VideoConv SmartPrince.Common.Rotate
open SmartPrince.Common.RotateSoundness

/-! ## The converters -/

section Converters
variable {ι : Type} [DecidableEq ι] {hidden : ι → Prop} {m m' : Mem ι} (hm : Agree hidden m m')
include hm

theorem average_agree {src src2 : Ptr ι} (h1 : ¬ hidden src.base) (h2 : ¬ hidden src2.base)
    (dest : Ptr ι) : Agree hidden (average src src2 dest m) (average src src2 dest m') := by
  unfold average
  dsimp only [Mem.load]
  rw [hm src h1, hm src2 h2]
  refine Agree.store ?_ dest _
  exact hm

variable {src : Ptr ι} (hsrc : ¬ hidden src.base) (map : Ptr ι) (w h : Nat)
include hsrc

theorem convYuv422to420p_agree :
    Agree hidden (convYuv422to420p map src w h m) (convYuv422to420p map src w h m') := by
  have hluma : Alongside hidden (fun c : Ptr ι × Ptr ι => ¬ hidden c.1.base)
      (loop (w * h) yuv422Luma ((src, map), m)) (loop (w * h) yuv422Luma ((src, map), m')) :=
    loop_alongside (P := fun c : Ptr ι × Ptr ι => ¬ hidden c.1.base) hsrc hm
      (fun _ c _ _ hc hm => ⟨rfl, hc, hm.copy hc c.2⟩) _
  let P := fun c : Yuv422Cursor ι => ¬ hidden c.src.base ∧ ¬ hidden c.src2.base
  have hpair : ∀ (k : Nat) (c : Yuv422Cursor ι) (m m' : Mem ι), P c → Agree hidden m m' →
      Alongside hidden P (yuv422Chroma k (c, m)) (yuv422Chroma k (c, m')) := by
    intro k c m m' hc hm
    have hfirst := average_agree hm hc.1 hc.2 c.dest
    exact ⟨rfl, hc, average_agree hfirst (by exact hc.1) (by exact hc.2) c.dest2⟩
  have hrow : ∀ (j : Nat) (c : Yuv422Cursor ι) (m m' : Mem ι), P c → Agree hidden m m' →
      Alongside hidden P (yuv422ChromaRow w j (c, m)) (yuv422ChromaRow w j (c, m')) := by
    intro j c m m' hc hm
    have hr := loop_alongside hc hm hpair (w / 2)
    exact hr.moved (f := fun c => { c with src := c.src + w * 2, src2 := c.src2 + w * 2 })
      fun _ hc => hc
  have hstart : P ⟨src + 1, src + (w * 2 + 1), map + w * h, map + w * h + w * h / 4⟩ := ⟨hsrc, hsrc⟩
  exact (loop_alongside hstart hluma.bytes hrow (h / 2)).bytes

omit hsrc in
theorem uyvyCalc_agree {cap : Ptr ι} (hcap : ¬ hidden cap.base) (dest : Ptr ι) (off : Nat) :
    Agree hidden (uyvyCalc cap dest off m) (uyvyCalc cap dest off m') := by
  unfold uyvyCalc
  dsimp only [Mem.load]
  rw [hm cap hcap, hm (cap + off) hcap]
  refine Agree.store ?_ dest _
  exact hm

theorem convUyvyto420p_agree :
    Agree hidden (convUyvyto420p map src w h m) (convUyvyto420p map src w h m') := by
  let P := fun c : UyvyCursor ι => ¬ hidden c.capMap.base
  have hpair : ∀ ix (k : Nat) (c : UyvyCursor ι) (m m' : Mem ι), P c → Agree hidden m m' →
      Alongside hidden P (uyvyPair (w * 2) ix k (c, m)) (uyvyPair (w * 2) ix k (c, m')) := by
    intro ix k c m m' hc hm
    unfold uyvyPair
    simp only [uyvyLuma]
    split_ifs
    · refine ⟨rfl, hc, ?_⟩
      refine Agree.copy ?_ (by exact hc) _
      refine uyvyCalc_agree ?_ (by exact hc) _ _
      refine Agree.copy ?_ (by exact hc) _
      exact uyvyCalc_agree hm (by exact hc) _ _
    · refine ⟨rfl, hc, ?_⟩
      refine Agree.copy ?_ (by exact hc) _
      exact Agree.copy hm (by exact hc) _
  have hstart : P ⟨map, map + w * h, map + w * h + w * h / 4, src⟩ := hsrc
  refine (loop_alongside hstart hm ?_ h).bytes
  intro ix c m m' hc hm
  exact loop_alongside hc hm (hpair ix) ((w + 1) / 2)

omit hsrc in
theorem addTo_agree {p : Ptr ι} (hp : ¬ hidden p.base) (x : Int) :
    Agree hidden (addTo p x m) (addTo p x m') := by
  unfold addTo
  dsimp only [Mem.load]
  rw [hm p hp]
  refine Agree.store ?_ p _
  exact hm

variable {map} (hmap : ¬ hidden map.base)
include hmap

/-- The cursors that are read from; the chroma bytes are read back. -/
structure RgbSeen (hidden : ι → Prop) (c : RgbCursor ι) : Prop where
  r : ¬ hidden c.r.base
  g : ¬ hidden c.g.base
  b : ¬ hidden c.b.base
  u : ¬ hidden c.u.base
  v : ¬ hidden c.v.base

omit hm hsrc hmap in
theorem rgbPixel_agree {s s' : RgbCursor ι × Mem ι} (hs : Alongside hidden (RgbSeen hidden) s s') :
    Alongside hidden (RgbSeen hidden) (rgbPixel s) (rgbPixel s') := by
  obtain ⟨c, m⟩ := s
  obtain ⟨c', m'⟩ := s'
  cases hs.cursor
  have hc : RgbSeen hidden c := hs.reads
  have hm : Agree hidden m m' := hs.bytes
  refine ⟨rfl, ⟨hc.r, hc.g, hc.b, hc.u, hc.v⟩, ?_⟩
  unfold rgbPixel
  dsimp only [Mem.load]
  rw [hm c.r hc.r, hm c.g hc.g, hm c.b hc.b]
  refine addTo_agree (addTo_agree (Agree.store ?_ _ _) hc.u _) hc.v _
  exact hm

omit hm hsrc hmap in
theorem rgbPair_agree (k : Nat) {s s' : RgbCursor ι × Mem ι}
    (hs : Alongside hidden (RgbSeen hidden) s s') :
    Alongside hidden (RgbSeen hidden) (rgbPair k s) (rgbPair k s') :=
  (rgbPixel_agree (rgbPixel_agree hs)).moved
    (f := fun c => { c with u := c.u + 1, v := c.v + 1 }) fun _ hc => ⟨hc.r, hc.g, hc.b, hc.u, hc.v⟩

omit hsrc hmap in
theorem rgbRow_agree (k : Nat) {c : RgbCursor ι} (hc : RgbSeen hidden c) :
    Alongside hidden (RgbSeen hidden) (rgbRow w k (c, m)) (rgbRow w k (c, m')) := by
  have hr := loop_alongside hc hm (fun k _ _ _ hc hm => rgbPair_agree k ⟨rfl, hc, hm⟩) ((w + 1) / 2)
  unfold rgbRow
  dsimp only
  split_ifs
  · exact hr.moved (f := fun c => { c with u := c.u - w / 2, v := c.v - w / 2 })
      fun _ hc => ⟨hc.r, hc.g, hc.b, hc.u, hc.v⟩
  · exact hr

theorem convRgb24toyuv420p_agree :
    Agree hidden (convRgb24toyuv420p map src w h m) (convRgb24toyuv420p map src w h m') := by
  have hstart : RgbSeen hidden ⟨map, map + w * h, map + w * h + w * h / 4, src + 1 + 1, src + 1, src⟩ :=
    ⟨hsrc, hsrc, hsrc, hmap, hmap⟩
  exact (loop_alongside hstart ((hm.memset _ 0 _).memset _ 0 _)
    (fun k _ _ _ hc hm => rgbRow_agree hm w k hc) h).bytes

omit hmap hsrc hm [DecidableEq ι] in
/-- All samples of a pixel are of the raw frame. -/
theorem bayerSites_base (rawpt : Ptr ι) (i : Nat) :
    ∀ p ∈ (bayerSites rawpt w h i).1 ++ ((bayerSites rawpt w h i).2.1 ++
      (bayerSites rawpt w h i).2.2), p.base = rawpt.base := by
  unfold bayerSites
  dsimp only
  split_ifs
  all_goals simp

omit hmap hsrc in
theorem scanMean_agree {ps : List (Ptr ι)} (hps : ∀ p ∈ ps, ¬ hidden p.base) (p : Ptr ι) :
    Agree hidden (scanMean p ps m) (scanMean p ps m') := by
  obtain ⟨hsum, hm⟩ := hm.sum hps
  unfold scanMean
  dsimp only
  rw [hsum]
  exact hm.store p _

omit hmap in
theorem bayer2rgb24_agree (dst : Ptr ι) :
    Agree hidden (bayer2rgb24 dst src w h m) (bayer2rgb24 dst src w h m') := by
  let P := fun c : Ptr ι × Ptr ι => ¬ hidden c.1.base
  refine (loop_alongside (P := P) hsrc hm ?_ (w * h)).bytes
  intro i c m m' hc hm
  have hsites : ∀ p ∈ (bayerSites c.1 w h i).1 ++ ((bayerSites c.1 w h i).2.1 ++
      (bayerSites c.1 w h i).2.2), ¬ hidden p.base := fun p hp => by
    rw [bayerSites_base w h c.1 i p hp]
    exact hc
  simp only [List.forall_mem_append] at hsites
  obtain ⟨hb, hg, hr⟩ := hsites
  exact ⟨rfl, hc, scanMean_agree (scanMean_agree (scanMean_agree hm hb _) hg _) hr _⟩

omit hsrc hmap [DecidableEq ι] in
theorem sonixCode_agree (hsrc : ¬ hidden src.base) (bitpos : Int) :
    (sonixCode src bitpos m).1 = (sonixCode src bitpos m').1 ∧
      Agree hidden (sonixCode src bitpos m).2 (sonixCode src bitpos m').2 := by
  unfold sonixCode
  dsimp only [Mem.load]
  rw [hm (src.shift (bitpos / 8)) hsrc, hm (src.shift (bitpos / 8) + 1) hsrc]
  exact ⟨rfl, hm⟩

omit hmap in
theorem sonixRaw_agree (k : Nat) {c : SonixCursor ι} (hc : ¬ hidden c.outp.base) :
    Alongside hidden (fun c : SonixCursor ι => ¬ hidden c.outp.base)
      (sonixRaw src k (c, m)) (sonixRaw src k (c, m')) := by
  obtain ⟨hcode, hm⟩ := sonixCode_agree hm hsrc c.bitpos
  refine ⟨rfl, hc, ?_⟩
  unfold sonixRaw
  dsimp only
  rw [hcode]
  exact hm.store c.outp _

omit hmap in
/-- The predictors are read from the frame that is written. -/
theorem sonixPixel_agree (row col : Nat) {c : SonixCursor ι} (hc : ¬ hidden c.outp.base) :
    Alongside hidden (fun c : SonixCursor ι => ¬ hidden c.outp.base)
      (sonixPixel src w row col (c, m)) (sonixPixel src w row col (c, m')) := by
  obtain ⟨hcode, hm⟩ := sonixCode_agree hm hsrc c.bitpos
  have hleft : (sonixCode src c.bitpos m).2.byte (c.outp - 2) =
      (sonixCode src c.bitpos m').2.byte (c.outp - 2) := hm _ hc
  have htop : (sonixCode src c.bitpos m).2.byte (c.outp.shift (int (-2 * w))) =
      (sonixCode src c.bitpos m').2.byte (c.outp.shift (int (-2 * w))) := hm _ hc
  unfold sonixPixel
  dsimp only
  rw [hcode]
  generalize (sonixCode src c.bitpos m').1 = code
  dsimp only [Mem.load]
  rw [hleft, htop]
  split_ifs
  all_goals
    refine ⟨rfl, hc, Agree.store ?_ _ _⟩
    exact hm

omit hmap in
theorem sonixRow_agree (row : Nat) {c : SonixCursor ι} (hc : ¬ hidden c.outp.base) :
    Alongside hidden (fun c : SonixCursor ι => ¬ hidden c.outp.base)
      (sonixRow src w row (c, m)) (sonixRow src w row (c, m')) := by
  have hraw := loop_alongside (P := fun c : SonixCursor ι => ¬ hidden c.outp.base) hc hm
    (fun k _ _ _ hc hm => sonixRaw_agree hm hsrc k hc) (if row < 2 then 2 else 0)
  unfold sonixRow
  dsimp only
  generalize loop (if row < 2 then 2 else 0) (sonixRaw src) (c, m) = s at hraw
  generalize loop (if row < 2 then 2 else 0) (sonixRaw src) (c, m') = s' at hraw
  obtain ⟨c, m⟩ := s
  obtain ⟨c', m'⟩ := s'
  cases hraw.cursor
  exact loop_alongside (P := fun c : SonixCursor ι => ¬ hidden c.outp.base) hraw.reads hraw.bytes
    (fun k _ _ _ hc hm => sonixPixel_agree hm hsrc w row _ hc) _

theorem sonixDecompress_agree :
    Agree hidden (sonixDecompress map src w h m) (sonixDecompress map src w h m') := by
  exact (loop_alongside (P := fun c : SonixCursor ι => ¬ hidden c.outp.base) hmap hm
    (fun row _ _ _ hc hm => sonixRow_agree hm hsrc w row hc) h).bytes

omit hsrc hmap in
theorem decodeInto_agree (p : Ptr ι) (raw : Nat → Option UInt8) :
    Agree hidden (decodeInto p raw m) (decodeInto p raw m') := by
  intro q hq
  unfold decodeInto
  dsimp only
  rw [hm q hq]

omit hmap in
theorem mjpegtoyuv420p_agree (dec : DecodeJpegRaw) {yuv : Fin 3 → Ptr ι}
    (hyuv : ∀ k, ¬ hidden (yuv k).base) (map : Ptr ι) (size : Nat) :
    (mjpegtoyuv420p dec yuv map src w h size m).1 = (mjpegtoyuv420p dec yuv map src w h size m').1 ∧
      Agree hidden (mjpegtoyuv420p dec yuv map src w h size m).2
        (mjpegtoyuv420p dec yuv map src w h size m').2 := by
  have hsame : (fun k : Nat => m.byte (src + k)) = fun k : Nat => m'.byte (src + k) :=
    funext fun k => hm (src + k) hsrc
  unfold mjpegtoyuv420p
  dsimp only
  rw [hsame]
  refine ⟨rfl, ?_⟩
  refine Agree.memcpy ?_ (hyuv 2) _ _
  refine Agree.memcpy ?_ (hyuv 1) _ _
  refine Agree.memcpy ?_ (hyuv 0) _ _
  refine Agree.memset ?_ _ 0 _
  refine Agree.memset ?_ _ 0 _
  refine Agree.memset ?_ _ 0 _
  exact decodeInto_agree (decodeInto_agree (decodeInto_agree hm _ _) _ _) _ _

end Converters

/-! ## The rotation -/

section Rotation
variable {hidden : Buf → Prop} {m m' : Mem Buf} (hm : Agree hidden m m')
include hm

theorem loadWord_agree {p : Ptr Buf} (hp : ¬ hidden p.base) :
    (loadWord m p).1 = (loadWord m' p).1 ∧ Agree hidden (loadWord m p).2 (loadWord m' p).2 := by
  unfold loadWord
  dsimp only [Mem.load]
  rw [hm p hp, hm (p + 1) hp, hm (p + 2) hp, hm (p + 3) hp]
  exact ⟨rfl, hm⟩

omit hm in
theorem reverseQuads_agree {nsrc ndst : Ptr Buf} (hs : ¬ hidden nsrc.base)
    (hd : ¬ hidden ndst.base) (m : Mem Buf) : ∀ m', Agree hidden m m' →
    Agree hidden (reverseQuads nsrc ndst m) (reverseQuads nsrc ndst m') := by
  fun_induction reverseQuads nsrc ndst m with
  | case1 nsrc ndst m hlt last m1 hl tmp first m2 hf m3 m4 ih =>
    intro m' hm
    obtain ⟨hlast, hm1⟩ := loadWord_agree hm hd
    obtain ⟨hfirst, hm2⟩ := loadWord_agree hm1 hs
    rw [hl] at hlast hm1 hfirst hm2
    rw [hf] at hfirst hm2
    rw [reverseQuads.eq_def nsrc ndst m', if_pos hlt]
    dsimp only
    rw [← hlast, ← hfirst]
    exact ih hs hd _ ((hm2.put _ _).put _ _)
  | case2 nsrc ndst m hge =>
    intro m' hm
    rw [reverseQuads.eq_def nsrc ndst m', if_neg hge]
    exact hm

variable {map : Ptr Buf} (hmap : ¬ hidden map.base)
include hmap

theorem reverseInplaceQuad_agree (size : Nat) :
    Agree hidden (reverseInplaceQuad map size m) (reverseInplaceQuad map size m') := by
  unfold reverseInplaceQuad
  exact reverseQuads_agree hmap (by exact hmap) m m' hm

/-- A turn that reads its source alone. -/
theorem rotateQuarter_agree {turn : Ptr Buf → Ptr Buf → Nat → Nat → Nat → Mem Buf → Mem Buf}
    (hturn : ∀ src dst size W H m m', ¬ hidden src.base → Agree hidden m m' →
      Agree hidden (turn src dst size W H m) (turn src dst size W H m'))
    (htemp : ¬ hidden .tempBuf) (cnt : Context) :
    Agree hidden (rotateQuarter turn cnt map m) (rotateQuarter turn cnt map m') := by
  unfold rotateQuarter
  dsimp only
  have hluma := hturn map tempBuf (cnt.rotateData.capWidth * cnt.rotateData.capHeight)
    cnt.rotateData.capWidth cnt.rotateData.capHeight m m' hmap hm
  split
  · refine Agree.memcpy ?_ htemp _ _
    exact hturn _ _ _ _ _ _ _ hmap (hturn _ _ _ _ _ _ _ hmap hluma)
  · exact hluma.memcpy htemp _ _

theorem rotateMap_agree (htemp : ¬ hidden .tempBuf) (cnt : Context) :
    Agree hidden (rotateMap cnt map m).2 (rotateMap cnt map m').2 := by
  unfold rotateMap
  dsimp only
  split_ifs
  · refine rotateQuarter_agree hm hmap (fun src dst size W H m m' hs hm => ?_) htemp cnt
    rw [rot90cw_loop, rot90cw_loop]
    exact loop_rel _ hm fun _ _ _ hm => hm.copy (by exact hs) _
  · refine reverseInplaceQuad_agree (reverseInplaceQuad_agree ?_ ?_ _) ?_ _
    · exact reverseInplaceQuad_agree hm hmap _
    · exact hmap
    · exact hmap
  · exact reverseInplaceQuad_agree hm hmap _
  · refine rotateQuarter_agree hm hmap (fun src dst size W H m m' hs hm => ?_) htemp cnt
    rw [rot90ccw_loop, rot90ccw_loop]
    exact loop_rel _ hm fun _ _ _ hm => hm.copy (by exact hs) _
  · exact hm

end Rotation

/-! ## A call of the capture path -/

section Capture
open SmartPrince.Common.V4l2 SmartPrince.Common.Video SmartPrince.Common.VideoSpec
open SmartPrince.Common.Untouched

variable {δ : Type} {hidden : Buf → Prop}

/-- The cameras differ in hidden bytes at most. -/
def Like (hidden : Buf → Prop) (c c' : Cam δ) : Prop :=
  ∃ m', Agree hidden c.mem m' ∧ c' = { c with mem := m' }

theorem like_refl (c : Cam δ) : Like hidden c c := ⟨c.mem, .refl c.mem, rfl⟩

theorem like_trans {c c' c'' : Cam δ} (h : Like hidden c c') (h' : Like hidden c' c'') :
    Like hidden c c'' := by
  obtain ⟨m', hm, rfl⟩ := h
  obtain ⟨m'', hm', rfl⟩ := h'
  exact ⟨m'', hm.trans hm', rfl⟩

/-- A change beside the memory. -/
theorem alike_change {f : Cam δ → Cam δ} (hf : ∀ c m, f { c with mem := m } = { f c with mem := m })
    (hmem : ∀ c, (f c).mem = c.mem) : Alike (Like hidden) (modify f : Prog (Cam δ) PUnit) := by
  refine alike_modify ?_
  rintro c _ ⟨m', hm, rfl⟩
  exact ⟨m', by rwa [hmem], hf c m'⟩

/-- What is read is not the memory. -/
theorem alike_read {α : Type} {f : Cam δ → Prog (Cam δ) α} (hread : ∀ c m, f { c with mem := m } = f c)
    (hf : ∀ c, Alike (Like hidden) (f c)) : Alike (Like hidden) (get >>= f) := by
  refine alike_get ?_ hf
  rintro c _ ⟨m', -, rfl⟩
  exact (hread c m').symm

variable (D : Driver δ)

theorem alike_xioctl (r : Request) : Alike (Like hidden) (xioctl D r) := by
  rintro c _ ⟨m', hm, rfl⟩
  exact ⟨rfl, m', hm, rfl⟩

theorem alike_gettimeofday : Alike (Like hidden) (gettimeofday D) := by
  rintro c _ ⟨m', hm, rfl⟩
  exact ⟨rfl, m', hm, rfl⟩

/-- A request, and then a program for each answer. -/
theorem alike_ask {α : Type} {r : Request} {f : Except Errno r.Reply → Prog (Cam δ) α}
    (herror : ∀ e, Alike (Like hidden) (f (.error e))) (hok : ∀ a, Alike (Like hidden) (f (.ok a))) :
    Alike (Like hidden) (xioctl D r >>= f) :=
  alike_bind (alike_xioctl D r) fun a => by
    cases a with
    | error e => exact herror e
    | ok a => exact hok a

/-! ### The switch of inputs -/

theorem alike_enumStandards (fuel index : Nat) :
    Alike (Like hidden) (enumStandards D fuel index) := by
  induction fuel generalizing index with
  | zero => exact alike_pure _
  | succ n ih => exact alike_ask D (fun _ => alike_pure _) fun _ => ih (index + 1)

theorem alike_selectStandard (norm : Int) : Alike (Like hidden) (selectStandard D norm) := by
  refine alike_bind (alike_xioctl D .gStd) fun stdId => ?_
  refine alike_ite ?_ (alike_pure _)
  refine alike_bind (alike_enumStandards D _ _) fun _ => ?_
  exact alike_bind (alike_xioctl D _) fun _ => alike_pure _

theorem alike_selectFrequency (input : Input) (freq : Nat) :
    Alike (Like hidden) (selectFrequency D input freq) := by
  refine alike_ite ?_ (alike_pure _)
  refine alike_ask D (fun _ => alike_pure _) fun _ => ?_
  exact alike_bind (alike_xioctl D _) fun _ => alike_pure _

theorem alike_v4l2SelectInput (input norm : Int) (freq : Nat) :
    Alike (Like hidden) (v4l2SelectInput D input norm freq) := by
  refine alike_ask D (fun _ => alike_pure _) fun inp => ?_
  refine alike_ask D (fun _ => alike_pure _) fun _ => ?_
  refine alike_bind (alike_selectStandard D norm) fun _ => ?_
  exact alike_bind (alike_selectFrequency D inp freq) fun _ => alike_pure _

theorem alike_v4l2SetControl (cid : Cid) (value : Int) :
    Alike (Like hidden) (v4l2SetControl D cid value) := by
  refine alike_read (fun _ _ => rfl) fun c => ?_
  dsimp only
  split
  · exact alike_pure _
  · split
    · exact alike_pure _
    · split
      · exact alike_bind (alike_xioctl D _) fun _ => alike_pure _
      · exact alike_bind (alike_xioctl D _) fun _ => alike_pure _
      · exact alike_pure _

theorem alike_setBrightness : Alike (Like hidden) (setBrightness D) := by
  refine alike_read (fun _ _ => rfl) fun c => ?_
  refine alike_bind (alike_v4l2SetControl D _ _) fun ret => ?_
  refine alike_ite ?_ (alike_pure _)
  refine alike_read (fun _ _ => rfl) fun c => ?_
  exact alike_bind (alike_v4l2SetControl D _ _) fun _ => alike_pure _

theorem alike_pictureControl (cid : Cid) (configured : Config → Int) (device : VideoDev → Int)
    (store : Int → VideoDev → VideoDev) :
    Alike (Like hidden) (pictureControl D cid configured device store) := by
  refine alike_read (fun _ _ => rfl) fun c => ?_
  refine alike_ite ?_ (alike_pure _)
  refine alike_bind (alike_change (fun _ _ => rfl) fun _ => rfl) fun _ => ?_
  exact alike_bind (alike_v4l2SetControl D _ _) fun _ => alike_pure _

section Seen
variable (ha : ∀ b, hidden b → Apart b imageVirgin)
include ha

theorem virgin_seen : ¬ hidden imageVirgin.base := fun h => (ha _ h).map rfl

theorem tempBuf_seen : ¬ hidden .tempBuf := fun h => (ha _ h).tempBuf rfl

theorem commonBuffer_seen : ¬ hidden commonBuffer.base := fun h => (ha _ h).commonBuffer rfl

theorem frame_seen (k : Nat) : ¬ hidden (.frame k) := fun h => (ha _ h).frame k rfl

theorem yuv_seen (k : Fin 3) : ¬ hidden (.yuv k) := fun h => (ha _ h).yuv k rfl

theorem sampleSum_agree (motionsize : Nat) {m m' : Mem Buf} (hm : Agree hidden m m') :
    (sampleSum motionsize m).1 = (sampleSum motionsize m').1 ∧
      Agree hidden (sampleSum motionsize m).2 (sampleSum motionsize m').2 := by
  have hs : Alongside hidden (fun _ : Int => True) (sampleSum motionsize m)
      (sampleSum motionsize m') := by
    refine loop_alongside trivial hm ?_ _
    intro k avg m m' _ hm
    refine ⟨?_, trivial, hm⟩
    dsimp only [Mem.load]
    rw [hm (imageVirgin + 101 * k) (virgin_seen ha)]
  exact ⟨hs.cursor, hs.bytes⟩

theorem alike_vidDoAutobright : Alike (Like hidden) (vidDoAutobright (δ := δ)) := by
  rintro c _ ⟨m', hm, rfl⟩
  obtain ⟨hsum, hm⟩ := sampleSum_agree ha c.tsk.imgs.motionsize.toNat hm
  unfold vidDoAutobright
  dsimp only
  rw [hsum]
  generalize (if c.tsk.conf.brightness ≠ 0 then c.tsk.conf.brightness else 128) = target
  split_ifs
  all_goals exact ⟨rfl, _, hm, rfl⟩

theorem alike_v4l2PictureControls : Alike (Like hidden) (v4l2PictureControls D) := by
  refine alike_bind (alike_pictureControl D _ _ _ _) fun _ => ?_
  refine alike_bind (alike_pictureControl D _ _ _ _) fun _ => ?_
  refine alike_bind (alike_pictureControl D _ _ _ _) fun _ => ?_
  refine alike_read (fun _ _ => rfl) fun c => ?_
  refine alike_ite ?_ ?_
  · refine alike_bind (alike_vidDoAutobright ha) fun _ => ?_
    exact alike_ite (alike_setBrightness D) (alike_pure _)
  · refine alike_ite ?_ (alike_pure _)
    refine alike_bind (alike_change (fun _ _ => rfl) fun _ => rfl) fun _ => ?_
    exact alike_setBrightness D

/-! ### The frame -/

omit ha in
theorem alike_requeue : Alike (Like hidden) (requeue D) := by
  refine alike_read (fun _ _ => rfl) fun c => ?_
  refine alike_ite ?_ (alike_pure _)
  exact alike_ask D (fun _ => alike_pure _) fun _ => alike_pure _

omit ha in
theorem deliver_agree (index : Nat) (frame : Nat → UInt8) {m m' : Mem Buf}
    (hm : Agree hidden m m') : Agree hidden (deliver index frame m) (deliver index frame m') := by
  intro p hp
  unfold deliver
  dsimp only
  rw [hm p hp]

omit ha in
theorem alike_dequeue : Alike (Like hidden) (dequeue D) := by
  refine alike_bind (alike_change (fun _ _ => rfl) fun _ => rfl) fun _ => ?_
  refine alike_ask D (fun e => ?_) fun b => ?_
  · refine alike_ite ?_ (alike_pure _)
    exact alike_bind (alike_change (fun _ _ => rfl) fun _ => rfl) fun _ => alike_pure _
  · refine alike_bind (alike_modify ?_) fun _ => alike_pure _
    rintro c _ ⟨m', hm, rfl⟩
    exact ⟨_, deliver_agree b.index b.frame hm, rfl⟩

variable (decodeJpegRaw : DecodeJpegRaw)

theorem convert_agree (fmt : PixFmt) (index w h bufsize len : Nat) {m m' : Mem Buf}
    (hm : Agree hidden m m') :
    (convert decodeJpegRaw fmt imageVirgin ⟨.frame index, 0⟩ w h bufsize len m).1 =
        (convert decodeJpegRaw fmt imageVirgin ⟨.frame index, 0⟩ w h bufsize len m').1 ∧
      Agree hidden (convert decodeJpegRaw fmt imageVirgin ⟨.frame index, 0⟩ w h bufsize len m).2
        (convert decodeJpegRaw fmt imageVirgin ⟨.frame index, 0⟩ w h bufsize len m').2 := by
  have hsrc : ¬ hidden (Ptr.base ⟨.frame index, 0⟩) := frame_seen ha index
  have hvirgin := virgin_seen ha
  have hcommon := commonBuffer_seen ha
  have hyuv : ∀ k, ¬ hidden (Ptr.base ⟨.yuv k, 0⟩) := yuv_seen ha
  have hjpeg := mjpegtoyuv420p_agree hm hsrc w h decodeJpegRaw hyuv imageVirgin len
  cases fmt with
  | rgb24 => exact ⟨rfl, convRgb24toyuv420p_agree hm hsrc w h hvirgin⟩
  | uyvy => exact ⟨rfl, convUyvyto420p_agree hm hsrc imageVirgin w h⟩
  | yuyv => exact ⟨rfl, convYuv422to420p_agree hm hsrc imageVirgin w h⟩
  | yuv422p => exact ⟨rfl, convYuv422to420p_agree hm hsrc imageVirgin w h⟩
  | yuv420 => exact ⟨rfl, hm.memcpy hsrc imageVirgin bufsize⟩
  | jpeg => exact hjpeg
  | mjpeg => exact hjpeg
  | sbggr8 =>
    have hbayer := bayer2rgb24_agree hm hsrc w h commonBuffer
    exact ⟨rfl, convRgb24toyuv420p_agree hbayer hcommon w h hvirgin⟩
  | sn9c10x =>
    have hraw := sonixDecompress_agree hm hsrc w h hvirgin
    have hbayer := bayer2rgb24_agree hraw hvirgin w h commonBuffer
    exact ⟨rfl, convRgb24toyuv420p_agree hbayer hcommon w h hvirgin⟩
  | other _ => exact ⟨rfl, hm⟩

theorem alike_convertFrame (w h : Nat) :
    Alike (Like hidden) (convertFrame (δ := δ) decodeJpegRaw imageVirgin w h) := by
  rintro c _ ⟨m', hm, rfl⟩
  obtain ⟨hret, hmem⟩ := convert_agree ha decodeJpegRaw c.s.fmt.pixelformat c.s.buf.index w h
    c.viddev.v4lBufsize.toNat (c.s.buffers c.s.buf.index).contentLength hm
  exact ⟨hret, _, hmem, rfl⟩

theorem alike_v4l2Next (w h : Nat) :
    Alike (Like hidden) (v4l2Next D decodeJpegRaw imageVirgin w h) := by
  refine alike_read (fun _ _ => rfl) fun c => ?_
  refine alike_ite (alike_pure _) ?_
  refine alike_read (fun _ _ => rfl) fun c => ?_
  refine alike_bind (alike_change (fun _ _ => rfl) fun _ => rfl) fun _ => ?_
  refine alike_bind (alike_requeue D) fun given => ?_
  refine alike_ite ?_ (alike_pure _)
  refine alike_bind (alike_dequeue D) fun ret => ?_
  cases ret with
  | some ret => exact alike_pure ret
  | none =>
    refine alike_bind (alike_change (fun _ _ => rfl) fun _ => rfl) fun _ => ?_
    exact alike_convertFrame ha decodeJpegRaw w h

theorem alike_skipFrames (w h : Nat) (switchTime : Time) (n : Nat) :
    Alike (Like hidden) (skipFrames D decodeJpegRaw imageVirgin w h switchTime n) := by
  induction n with
  | zero => exact alike_pure _
  | succ n ih =>
    refine alike_bind (alike_v4l2Next D ha decodeJpegRaw w h) fun ret => ?_
    refine alike_ite (alike_pure _) ?_
    refine alike_read (fun _ _ => rfl) fun c => ?_
    exact alike_ite (alike_pure _) ih

theorem alike_skipMore (w h n : Nat) :
    Alike (Like hidden) (skipMore D decodeJpegRaw imageVirgin w h n) := by
  induction n with
  | zero => exact alike_pure _
  | succ n ih => exact alike_bind (alike_v4l2Next D ha decodeJpegRaw w h) fun _ => ih

theorem alike_v4l2SetInput (w h : Nat) :
    Alike (Like hidden) (v4l2SetInput D decodeJpegRaw imageVirgin w h) := by
  refine alike_read (fun _ _ => rfl) fun c => ?_
  refine alike_read (fun _ _ => rfl) fun c' => ?_
  refine alike_ite ?_ (alike_v4l2PictureControls D ha)
  refine alike_bind (alike_v4l2SelectInput D _ _ _) fun _ => ?_
  refine alike_bind (alike_gettimeofday D) fun switchTime => ?_
  refine alike_bind (alike_v4l2PictureControls D ha) fun _ => ?_
  refine alike_bind (alike_change (fun _ _ => rfl) fun _ => rfl) fun _ => ?_
  refine alike_read (fun _ _ => rfl) fun c => ?_
  refine alike_bind (alike_skipFrames D ha decodeJpegRaw w h switchTime _) fun _ => ?_
  exact alike_skipMore D ha decodeJpegRaw w h _

theorem alike_rotateCaptured : Alike (Like hidden) (rotateCaptured (δ := δ) imageVirgin) := by
  refine alike_read (fun _ _ => rfl) fun c => ?_
  refine alike_ite (alike_modify ?_) (alike_pure _)
  rintro c _ ⟨m', hm, rfl⟩
  exact ⟨_, rotateMap_agree hm (virgin_seen ha) (tempBuf_seen ha) c.tsk, rfl⟩

/-- **A capture does the same whatever hidden objects hold**, if they are apart
from those it works on. -/
theorem alike_videoV4l2Next :
    Alike (Like hidden) (videoV4l2Next D decodeJpegRaw imageVirgin) := by
  refine alike_read (fun _ _ => rfl) fun c => ?_
  refine alike_bind (alike_v4l2SetInput D ha decodeJpegRaw _ _) fun _ => ?_
  refine alike_bind (alike_v4l2Next D ha decodeJpegRaw _ _) fun ret => ?_
  exact alike_bind (alike_rotateCaptured ha) fun _ => alike_pure ret

end Seen

end Capture

end SmartPrince.Common.Unseen
