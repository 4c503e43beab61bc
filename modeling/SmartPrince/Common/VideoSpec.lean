import SmartPrince.Common.Video

/-! # What a call of the capture path does

`v4l2_next` by cases: everything one call can do to the camera. Then the rules
for what the switch of inputs keeps, whatever the driver answers. -/
namespace SmartPrince.Common.VideoSpec
open SmartPrince.Lib.Program SmartPrince.Lib.Loop SmartPrince.Lib.Memory
open SmartPrince.Common.CameraState SmartPrince.Common.V4l2 SmartPrince.Common.Video
open SmartPrince.Common.VideoConv SmartPrince.Common.Rotate

variable {δ : Type} (D : Driver δ)

/-! ## One request -/

def answer (r : Request) (d : δ) : Except Errno r.Reply := (D.ioctl r d).1

/-- The camera after a request. -/
def after (r : Request) (c : Cam δ) : Cam δ := (xioctl D r c).2

theorem xioctl_bind {β : Type} (r : Request) (f : Except Errno r.Reply → Prog (Cam δ) β)
    (c : Cam δ) : (xioctl D r >>= f) c = f (answer D r c.drv) (after D r c) := rfl

variable (r : Request) (c : Cam δ)

@[simp] theorem after_tsk : (after D r c).tsk = c.tsk := rfl
@[simp] theorem after_viddev : (after D r c).viddev = c.viddev := rfl
@[simp] theorem after_s : (after D r c).s = c.s := rfl
@[simp] theorem after_mem : (after D r c).mem = c.mem := rfl
@[simp] theorem after_drv : (after D r c).drv = (D.ioctl r c.drv).2 := rfl
@[simp] theorem after_trace :
    (after D r c).trace = ⟨r, c.drv, answer D r c.drv⟩ :: c.trace := rfl

/-! ## `v4l2_next` -/

def blocked (c : Cam δ) : Cam δ := { c with sigmask := blockSignals c.sigmask }

def cleared (c : Cam δ) : Cam δ := { c with s := { c.s with buf := .zero } }

theorem cleared_drv (c : Cam δ) : (cleared c).drv = c.drv := rfl

/-- The camera once the frame held back, if any, was given to the driver. -/
inductive Requeued (c : Cam δ) : Cam δ → Prop
  | nothing (hp : c.s.pframe < 0) : Requeued c c
  | given {u} (hp : 0 ≤ c.s.pframe) (ha : answer D (.qbuf c.s.buf.index) c.drv = .ok u) :
      Requeued c (after D (.qbuf c.s.buf.index) c)

theorem requeue_cases (c : Cam δ) :
    (∃ c₁, Requeued D c c₁ ∧ requeue D c = (true, c₁)) ∨
      (0 ≤ c.s.pframe ∧ (∃ e, answer D (.qbuf c.s.buf.index) c.drv = .error e) ∧
        requeue D c = (false, after D (.qbuf c.s.buf.index) c)) := by
  simp only [requeue, get_bind]
  by_cases hp : c.s.pframe ≥ 0
  · rw [if_pos hp, xioctl_bind]
    cases ha : answer D (.qbuf c.s.buf.index) c.drv with
    | error e => exact .inr ⟨hp, ⟨e, rfl⟩, rfl⟩
    | ok u => exact .inl ⟨_, .given hp ha, rfl⟩
  · rw [if_neg hp]
    exact .inl ⟨c, .nothing (by omega), rfl⟩

/-- The state kept for the device after `VIDIOC_DQBUF` failed. -/
def missed (e : Errno) (s : SrcV4l2) : SrcV4l2 := if e = eio then nextPframe s else s

/-- The camera holding the frame the driver delivered. -/
def held (b : Dequeued) (old : Signal → Bool) (c : Cam δ) : Cam δ :=
  { c with
    s := holdFrame b c.s, mem := deliver b.index b.frame c.mem
    sigmask := unblockSignals old c.sigmask }

theorem dequeue_cases (c : Cam δ) :
    (∃ e, answer D .dqbuf c.drv = .error e ∧
      dequeue D c = (some (if e = eio then 1 else -1),
        { after D .dqbuf (cleared c) with s := missed e (cleared c).s })) ∨
      ∃ b : Dequeued, answer D .dqbuf c.drv = .ok b ∧
        dequeue D c = (none, { after D .dqbuf (cleared c) with
          s := holdFrame b (cleared c).s, mem := deliver b.index b.frame c.mem }) := by
  simp only [dequeue, modify_bind]
  rw [xioctl_bind, ← cleared, cleared_drv]
  cases ha : answer D .dqbuf c.drv with
  | error e =>
    refine .inl ⟨e, rfl, ?_⟩
    by_cases he : e = eio
    · rw [missed, if_pos he, if_pos he]
      simp only [he, if_true]
      rfl
    · rw [missed, if_neg he, if_neg he]
      simp only [he, if_false]
      rfl
  | ok b => exact .inr ⟨b, rfl, rfl⟩

variable (decodeJpegRaw : DecodeJpegRaw)

/-- All that a call of `v4l2_next` can do: refuse the device, be refused the
frame it gives back, get no frame, or get one and convert it. -/
inductive Called (map : Ptr Buf) (width height : Nat) (c : Cam δ) : Int → Cam δ → Prop
  | fatal (hf : c.viddev.v4lFmt ≠ paletteYuv420p) : Called map width height c v4lFatalError c
  | refused {e} (hf : c.viddev.v4lFmt = paletteYuv420p) (hp : 0 ≤ c.s.pframe)
      (ha : answer D (.qbuf c.s.buf.index) c.drv = .error e) :
      Called map width height c (-1) (after D (.qbuf c.s.buf.index) (blocked c))
  | missed {c₁ e} (hf : c.viddev.v4lFmt = paletteYuv420p) (hq : Requeued D (blocked c) c₁)
      (ha : answer D .dqbuf c₁.drv = .error e) :
      Called map width height c (if e = eio then 1 else -1)
        { after D .dqbuf (cleared c₁) with s := missed e (cleared c₁).s }
  | frame {c₁} {b : Dequeued} (hf : c.viddev.v4lFmt = paletteYuv420p)
      (hq : Requeued D (blocked c) c₁) (ha : answer D .dqbuf c₁.drv = .ok b) :
      Called map width height c
        (convertFrame decodeJpegRaw map width height
          (held b c.sigmask (after D .dqbuf (cleared c₁)))).1
        (convertFrame decodeJpegRaw map width height
          (held b c.sigmask (after D .dqbuf (cleared c₁)))).2

theorem v4l2Next_called (map : Ptr Buf) (width height : Nat) (c : Cam δ) :
    Called D decodeJpegRaw map width height c
      (v4l2Next D decodeJpegRaw map width height c).1
      (v4l2Next D decodeJpegRaw map width height c).2 := by
  simp only [v4l2Next, get_bind]
  by_cases hf : c.viddev.v4lFmt = paletteYuv420p
  · rw [if_neg (not_not.mpr hf), get_bind, modify_bind, bind_apply]
    obtain ⟨c₁, hq, heq⟩ | ⟨hp, ⟨e, ha⟩, heq⟩ := requeue_cases D (blocked c)
    · rw [← blocked, heq, if_pos rfl, bind_apply]
      obtain ⟨e, ha, heq⟩ | ⟨b, ha, heq⟩ := dequeue_cases D c₁
      · rw [heq]
        exact .missed hf hq ha
      · rw [heq]
        exact @Called.frame _ D decodeJpegRaw map width height c c₁ b hf hq ha
    · rw [← blocked, heq]
      exact .refused hf hp ha
  · rw [if_pos hf]
    exact .fatal hf

/-! ## What start-up and the switch of inputs keep -/

/-- A relation that holds across whatever the driver is asked but the format,
and any change of the device's private state but that of the format. -/
structure Asking (R : Cam δ → Cam δ → Prop) : Prop extends Frame R where
  asked : ∀ r, r.setsFormat = false → Keeps R (xioctl D r)
  source : ∀ c s, s.fmt = c.s.fmt → R c { c with s }

/-- One that need not hold across the request that starts the stream. -/
structure Requesting (R : Cam δ → Cam δ → Prop) : Prop extends Frame R where
  asked : ∀ r, r.setsFormat = false → r.startsStream = false → Keeps R (xioctl D r)
  source : ∀ c s, s.fmt = c.s.fmt → R c { c with s }

theorem Asking.requesting {R : Cam δ → Cam δ → Prop} (h : Asking D R) : Requesting D R where
  toFrame := h.toFrame
  asked r hr _ := h.asked r hr
  source := h.source

/-- One that also holds across any change of the device's picture settings and
the sampling of the picture. -/
structure Picturing (R : Cam δ → Cam δ → Prop) : Prop extends Asking D R where
  setting : ∀ c dev, dev.v4lFmt = c.viddev.v4lFmt → dev.v4lBufsize = c.viddev.v4lBufsize →
    dev.width = c.viddev.width → dev.height = c.viddev.height → R c { c with viddev := dev }
  sampled : ∀ c, c.tsk.conf.autobright = true →
    R c { c with mem := (sampleSum c.tsk.imgs.motionsize.toNat c.mem).2 }

/-- One that also holds across the clock and a change of the device's dimensions
and input. -/
structure Capture (R : Cam δ → Cam δ → Prop) : Prop extends Asking D R where
  clock : Keeps R (gettimeofday D)
  device : ∀ c dev, dev.v4lFmt = c.viddev.v4lFmt → dev.v4lBufsize = c.viddev.v4lBufsize →
    R c { c with viddev := dev }
  sampled : ∀ c, c.tsk.conf.autobright = true →
    R c { c with mem := (sampleSum c.tsk.imgs.motionsize.toNat c.mem).2 }

theorem Capture.picturing {R : Cam δ → Cam δ → Prop} (h : Capture D R) : Picturing D R where
  toAsking := h.toAsking
  setting c dev hf hb _ _ := h.device c dev hf hb
  sampled := h.sampled

/-- The samples are read, and the brightness of the device may change. -/
theorem vidDoAutobright_state (c : Cam δ) : ∃ brightness,
    (vidDoAutobright c).2 = { c with
      mem := (sampleSum c.tsk.imgs.motionsize.toNat c.mem).2
      viddev := { c.viddev with brightness } } := by
  unfold vidDoAutobright
  dsimp only
  generalize (if c.tsk.conf.brightness ≠ 0 then c.tsk.conf.brightness else 128) = target
  split_ifs
  · exact ⟨_, rfl⟩
  · exact ⟨c.viddev.brightness, rfl⟩
  · exact ⟨_, rfl⟩
  · exact ⟨c.viddev.brightness, rfl⟩
  · exact ⟨c.viddev.brightness, rfl⟩

section Kept
variable {D decodeJpegRaw} {R : Cam δ → Cam δ → Prop}

section Requests
variable (h : Requesting D R)
include h

/-- A request, and then a program for each answer. -/
theorem keeps_ask {α : Type} {r : Request} (hr : r.setsFormat = false)
    (hs : r.startsStream = false) {f : Except Errno r.Reply → Prog (Cam δ) α}
    (herror : ∀ e, Keeps R (f (.error e))) (hok : ∀ a, Keeps R (f (.ok a))) :
    Keeps R (xioctl D r >>= f) :=
  keeps_bind h.toFrame (h.asked r hr hs) fun a => by
    cases a with
    | error e => exact herror e
    | ok a => exact hok a

theorem keeps_return {α : Type} (a : α) : Keeps R (pure a : Prog (Cam δ) α) :=
  keeps_pure h.toFrame a

/-- A change of the private state, and then a program. -/
theorem keeps_source {α : Type} {g : SrcV4l2 → SrcV4l2} (hg : ∀ s, (g s).fmt = s.fmt)
    {f : PUnit → Prog (Cam δ) α} (hf : Keeps R (f ⟨⟩)) :
    Keeps R ((modify fun c => { c with s := g c.s }) >>= f) :=
  keeps_bind h.toFrame (keeps_modify fun c => h.source c _ (hg c.s)) fun _ => hf

theorem keeps_v4l2GetCapability : Keeps R (v4l2GetCapability D) := by
  refine keeps_ask h rfl rfl ?_ ?_
  · intro e
    exact keeps_return h _
  · intro cap
    exact keeps_source h (g := fun s => { s with cap }) (fun _ => rfl) (keeps_return h _)

theorem keeps_enumStandards (fuel index : Nat) : Keeps R (enumStandards D fuel index) := by
  induction fuel generalizing index with
  | zero => exact keeps_return h _
  | succ n ih =>
    refine keeps_ask h rfl rfl ?_ ?_
    · intro e
      exact keeps_return h _
    · intro _
      exact ih (index + 1)

theorem keeps_selectStandard (norm : Int) : Keeps R (selectStandard D norm) := by
  refine keeps_bind h.toFrame (h.asked _ rfl rfl) ?_
  intro stdId
  refine keeps_ite ?_ (keeps_return h _)
  refine keeps_bind h.toFrame (keeps_enumStandards h _ _) ?_
  intro _
  refine keeps_bind h.toFrame (h.asked _ rfl rfl) ?_
  intro _
  exact keeps_return h _

theorem keeps_selectFrequency (input : Input) (freq : Nat) :
    Keeps R (selectFrequency D input freq) := by
  refine keeps_ite ?_ (keeps_return h _)
  refine keeps_ask h rfl rfl ?_ ?_
  · intro e
    exact keeps_return h _
  · intro _
    refine keeps_bind h.toFrame (h.asked _ rfl rfl) ?_
    intro _
    exact keeps_return h _

theorem keeps_v4l2SelectInput (input norm : Int) (freq : Nat) :
    Keeps R (v4l2SelectInput D input norm freq) := by
  refine keeps_ask h rfl rfl (fun e => keeps_return h _) ?_
  intro inp
  refine keeps_ask h rfl rfl (fun e => keeps_return h _) ?_
  intro _
  refine keeps_bind h.toFrame (keeps_selectStandard h norm) ?_
  intro _
  refine keeps_bind h.toFrame (keeps_selectFrequency h inp freq) ?_
  intro _
  exact keeps_return h _

theorem keeps_enumFormats (fuel k : Nat) (index : Int) :
    Keeps R (enumFormats D fuel k index) := by
  induction fuel generalizing k index with
  | zero => exact keeps_return h _
  | succ n ih =>
    refine keeps_ask h rfl rfl ?_ ?_
    · intro e
      exact keeps_return h _
    · intro fmt
      exact ih _ _

theorem keeps_queryControls (qs : List Cid) (i count : Nat) :
    Keeps R (queryControls D qs i count) := by
  induction qs generalizing i count with
  | nil => exact keeps_return h _
  | cons q qs ih =>
    refine keeps_ask h rfl rfl ?_ ?_
    · intro e
      exact ih _ _
    · intro ctrl
      exact keeps_source h (g := fun s => { s with ctrlFlags := s.ctrlFlags ||| 1 <<< i })
        (fun _ => rfl) (ih _ _)

theorem keeps_fillControls (qs : List Cid) (i : Nat) (filled : List QueryCtrl) :
    Keeps R (fillControls D qs i filled) := by
  induction qs generalizing i filled with
  | nil => exact keeps_return h _
  | cons q qs ih =>
    refine keeps_bind h.toFrame (keeps_get h.toFrame) ?_
    intro c
    refine keeps_ite ?_ (ih _ _)
    refine keeps_ask h rfl rfl (fun e => ih _ _) ?_
    intro ctrl
    refine keeps_bind h.toFrame (h.asked _ rfl rfl) ?_
    intro _
    exact ih _ _

theorem keeps_v4l2ScanControls : Keeps R (v4l2ScanControls D) := by
  refine keeps_bind h.toFrame (keeps_queryControls h _ _ _) ?_
  intro count
  refine keeps_ite ?_ (keeps_return h _)
  refine keeps_bind h.toFrame (keeps_fillControls h _ _ _) ?_
  intro filled
  exact keeps_source h (g := fun s => { s with controls := some _ }) (fun _ => rfl)
    (keeps_return h _)

theorem keeps_mapBuffers (n b : Nat) : Keeps R (mapBuffers D n b) := by
  induction n generalizing b with
  | zero => exact keeps_return h _
  | succ n ih =>
    refine keeps_ask h rfl rfl (fun e => keeps_return h _) ?_
    intro length
    refine keeps_source h (g := fun s => { s with
      buffers := Function.update s.buffers b { s.buffers b with size := length } })
      (fun _ => rfl) ?_
    refine keeps_ask h rfl rfl ?_ ?_
    · intro e
      exact keeps_return h _
    · intro _
      exact ih (b + 1)

theorem keeps_queueBuffers (n b : Nat) : Keeps R (queueBuffers D n b) := by
  induction n generalizing b with
  | zero => exact keeps_return h _
  | succ n ih =>
    refine keeps_source h (g := fun s => { s with buf := { V4l2Buffer.zero with index := b } })
      (fun _ => rfl) ?_
    refine keeps_ask h rfl rfl ?_ ?_
    · intro e
      exact keeps_return h _
    · intro _
      exact ih (b + 1)

theorem keeps_v4l2SetControl (cid : Cid) (value : Int) : Keeps R (v4l2SetControl D cid value) := by
  refine keeps_bind h.toFrame (keeps_get h.toFrame) ?_
  intro c
  dsimp only
  split
  · exact keeps_return h _
  · split
    · exact keeps_return h _
    · split
      · refine keeps_bind h.toFrame (h.asked _ rfl rfl) ?_
        intro _
        exact keeps_return h _
      · refine keeps_bind h.toFrame (h.asked _ rfl rfl) ?_
        intro _
        exact keeps_return h _
      · exact keeps_return h _

theorem keeps_setBrightness : Keeps R (setBrightness D) := by
  refine keeps_bind h.toFrame (keeps_get h.toFrame) ?_
  intro c
  refine keeps_bind h.toFrame (keeps_v4l2SetControl h _ _) ?_
  intro ret
  refine keeps_ite ?_ (keeps_return h _)
  refine keeps_bind h.toFrame (keeps_get h.toFrame) ?_
  intro c'
  refine keeps_bind h.toFrame (keeps_v4l2SetControl h _ _) ?_
  intro _
  exact keeps_return h _

end Requests

theorem keeps_v4l2SetMmap (h : Asking D R) : Keeps R (v4l2SetMmap D) := by
  have hr := h.requesting
  refine keeps_bind h.toFrame (keeps_get h.toFrame) ?_
  intro c
  refine keeps_ite (keeps_return hr _) ?_
  refine keeps_source hr (g := fun s => { s with reqCount := mmapBuffers }) (fun _ => rfl) ?_
  refine keeps_ask hr rfl rfl (fun e => keeps_return hr _) ?_
  intro (count : Nat)
  refine keeps_source hr (g := fun s => { s with reqCount := count }) (fun _ => rfl) ?_
  refine keeps_ite (keeps_return hr _) ?_
  refine keeps_source hr (g := fun s => { s with buffers := fun _ => ⟨0, 0, 0⟩ }) (fun _ => rfl) ?_
  refine keeps_bind h.toFrame (keeps_mapBuffers hr _ _) ?_
  intro mapped
  refine keeps_ite (keeps_return hr _) ?_
  refine keeps_bind h.toFrame (keeps_queueBuffers hr _ _) ?_
  intro queued
  refine keeps_ite (keeps_return hr _) ?_
  refine keeps_bind h.toFrame (h.asked .streamon rfl) ?_
  rintro (e | _)
  · exact keeps_return hr _
  · exact keeps_return hr _

section Pictures
variable (h : Picturing D R)
include h

theorem keeps_pictureControl {cid : Cid} {configured : Config → Int} {device : VideoDev → Int}
    {store : Int → VideoDev → VideoDev}
    (hs : ∀ v d, (store v d).v4lFmt = d.v4lFmt ∧ (store v d).v4lBufsize = d.v4lBufsize ∧
      (store v d).width = d.width ∧ (store v d).height = d.height) :
    Keeps R (pictureControl D cid configured device store) := by
  refine keeps_bind h.toFrame (keeps_get h.toFrame) ?_
  intro c
  refine keeps_ite ?_ (keeps_pure h.toFrame _)
  refine keeps_bind h.toFrame (keeps_modify ?_) ?_
  · intro c
    obtain ⟨hf, hb, hw, hh⟩ := hs _ c.viddev
    exact h.setting c _ hf hb hw hh
  · intro _
    refine keeps_bind h.toFrame (keeps_v4l2SetControl h.toAsking.requesting _ _) ?_
    intro _
    exact keeps_pure h.toFrame _

theorem keeps_autobright (c : Cam δ) (hc : c.tsk.conf.autobright = true) :
    R c (vidDoAutobright c).2 := by
  obtain ⟨brightness, hstate⟩ := vidDoAutobright_state c
  rw [hstate]
  exact h.trans (h.sampled c hc)
    (h.setting _ { c.viddev with brightness } rfl rfl rfl rfl)

theorem keeps_v4l2PictureControls : Keeps R (v4l2PictureControls D) := by
  refine keeps_bind h.toFrame (keeps_pictureControl h fun _ _ => ⟨rfl, rfl, rfl, rfl⟩) ?_
  intro _
  refine keeps_bind h.toFrame (keeps_pictureControl h fun _ _ => ⟨rfl, rfl, rfl, rfl⟩) ?_
  intro _
  refine keeps_bind h.toFrame (keeps_pictureControl h fun _ _ => ⟨rfl, rfl, rfl, rfl⟩) ?_
  intro _ c
  rw [get_bind]
  -- the samples are taken where the configuration asks for them
  by_cases hc : c.tsk.conf.autobright = true
  · rw [if_pos hc, bind_apply]
    have hset := keeps_setBrightness h.toAsking.requesting
    refine h.trans (keeps_autobright h c hc) (keeps_ite hset ?_ _)
    exact keeps_pure h.toFrame _
  · rw [if_neg hc]
    refine keeps_ite ?_ (keeps_pure h.toFrame _) c
    refine keeps_bind h.toFrame (keeps_modify fun c => h.setting c _ rfl rfl rfl rfl) ?_
    intro _
    exact keeps_setBrightness h.toAsking.requesting

end Pictures

section Next
variable {map : Ptr Buf} {width height : Nat}
  (hnext : Keeps R (v4l2Next D decodeJpegRaw map width height))
include hnext

section Skips
variable (hR : Frame R)
include hR

theorem keeps_skipFrames (switchTime : Time) (n : Nat) :
    Keeps R (skipFrames D decodeJpegRaw map width height switchTime n) := by
  induction n with
  | zero => exact keeps_pure hR _
  | succ n ih =>
    refine keeps_bind hR hnext ?_
    intro ret
    refine keeps_ite (keeps_pure hR _) ?_
    refine keeps_bind hR (keeps_get hR) ?_
    intro c
    exact keeps_ite (keeps_pure hR _) ih

theorem keeps_skipMore (n : Nat) : Keeps R (skipMore D decodeJpegRaw map width height n) := by
  induction n with
  | zero => exact keeps_pure hR _
  | succ n ih =>
    refine keeps_bind hR hnext ?_
    intro _
    exact ih

end Skips

variable (h : Capture D R)
include h

/-- **Whatever a request, a picture setting and a call of `v4l2_next` keep,
the switch of inputs keeps.** -/
theorem keeps_v4l2SetInput : Keeps R (v4l2SetInput D decodeJpegRaw map width height) := by
  refine keeps_bind h.toFrame (keeps_get h.toFrame) ?_
  intro c
  refine keeps_bind h.toFrame (keeps_get h.toFrame) ?_
  intro c'
  have hpicture := keeps_v4l2PictureControls h.picturing
  refine keeps_ite ?_ hpicture
  refine keeps_bind h.toFrame (keeps_v4l2SelectInput h.toAsking.requesting _ _ _) ?_
  intro _
  refine keeps_bind h.toFrame h.clock ?_
  intro switchTime
  refine keeps_bind h.toFrame hpicture ?_
  intro _
  refine keeps_bind h.toFrame (keeps_modify fun c => h.device c _ rfl rfl) ?_
  intro _
  refine keeps_bind h.toFrame (keeps_get h.toFrame) ?_
  intro s
  refine keeps_bind h.toFrame (keeps_skipFrames hnext h.toFrame _ _) ?_
  intro _
  exact keeps_skipMore hnext h.toFrame _

end Next

end Kept

/-! ## What every call keeps -/

/-- What was asked of the driver between two states, newest first. -/
def asked (c c' : Cam δ) : List (Exchange δ) := c'.trace.take (c'.trace.length - c.trace.length)

theorem asked_of {c c' : Cam δ} {new : List (Exchange δ)} (h : c'.trace = new ++ c.trace) :
    asked c c' = new := by
  simp [asked, h]

/-- The driver delivers frame `b`. -/
def Delivers (b : Dequeued) (x : Exchange δ) : Prop := ∃ d, x = ⟨.dqbuf, d, .ok b⟩

/-- What was asked is on record with the driver's answer. -/
def Recorded (x : Exchange δ) : Prop := x.answer = answer D x.request x.before

/-- The context and the formats stay, and so does every byte unless a frame was delivered. -/
structure Steady (c c' : Cam δ) : Prop where
  tsk : c'.tsk = c.tsk
  fmt : c'.s.fmt = c.s.fmt
  v4lFmt : c'.viddev.v4lFmt = c.viddev.v4lFmt
  v4lBufsize : c'.viddev.v4lBufsize = c.viddev.v4lBufsize
  trace : ∃ new, c'.trace = new ++ c.trace ∧ (∀ x ∈ new, Recorded D x) ∧
    ((∀ x ∈ new, ∀ b, ¬ Delivers b x) → c'.mem.byte = c.mem.byte)

variable {D decodeJpegRaw}

/-- Nothing was asked and no byte changed. -/
theorem steady_silent {c c' : Cam δ} (ht : c'.tsk = c.tsk) (hf : c'.s.fmt = c.s.fmt)
    (hv : c'.viddev.v4lFmt = c.viddev.v4lFmt) (hs : c'.viddev.v4lBufsize = c.viddev.v4lBufsize)
    (htrace : c'.trace = c.trace) (hb : c'.mem.byte = c.mem.byte) : Steady D c c' :=
  ⟨ht, hf, hv, hs, [], htrace, by simp, fun _ => hb⟩

theorem steady_frame : Frame (Steady D) where
  refl _ := steady_silent rfl rfl rfl rfl rfl rfl
  trans := by
    intro c c' c'' h h'
    obtain ⟨new, ht, hr, hb⟩ := h.trace
    obtain ⟨new', ht', hr', hb'⟩ := h'.trace
    refine ⟨h'.tsk.trans h.tsk, h'.fmt.trans h.fmt, h'.v4lFmt.trans h.v4lFmt,
      h'.v4lBufsize.trans h.v4lBufsize, new' ++ new, by rw [ht', ht, List.append_assoc],
      fun x hx => (List.mem_append.mp hx).elim (hr' x) (hr x), fun hx => ?_⟩
    exact (hb' fun x hm => hx x (List.mem_append_left _ hm)).trans
      (hb fun x hm => hx x (List.mem_append_right _ hm))

theorem sampleSum_byte (n : Nat) (mem : Mem Buf) : (sampleSum n mem).2.byte = mem.byte :=
  @loop_inv _ (fun _ (s : Int × Mem Buf) => s.2.byte = mem.byte) _ _ (0, mem) rfl
    fun _ _ _ hs => hs

theorem steady_asked (r : Request) (c : Cam δ) : Steady D c (after D r c) :=
  ⟨rfl, rfl, rfl, rfl, [_], rfl, fun _ hx => List.mem_singleton.mp hx ▸ rfl, fun _ => rfl⟩

theorem steady_capture : Capture D (Steady D) where
  toFrame := steady_frame
  asked r _ := steady_asked r
  source _ _ hf := steady_silent rfl hf rfl rfl rfl rfl
  clock _ := steady_silent rfl rfl rfl rfl rfl rfl
  device _ _ hf hb := steady_silent rfl rfl hf hb rfl rfl
  sampled _ _ := steady_silent rfl rfl rfl rfl rfl (sampleSum_byte _ _)

theorem steady_blocked (c : Cam δ) : Steady D c (blocked c) :=
  steady_silent rfl rfl rfl rfl rfl rfl

theorem Requeued.steady {c c₁ : Cam δ} (h : Requeued D (blocked c) c₁) : Steady D c c₁ := by
  cases h with
  | nothing _ => exact steady_blocked c
  | given _ _ => exact steady_frame.trans (steady_blocked c) (steady_asked _ _)

theorem missed_fmt (e : Errno) (s : SrcV4l2) : (missed e s).fmt = s.fmt := by
  unfold missed
  split <;> rfl

theorem Called.steady {map : Ptr Buf} {width height : Nat} {c c' : Cam δ} {ret : Int}
    (h : Called D decodeJpegRaw map width height c ret c') : Steady D c c' := by
  cases h with
  | fatal _ => exact steady_frame.refl c
  | refused _ _ _ => exact steady_frame.trans (steady_blocked c) (steady_asked _ (blocked c))
  | @missed c₁ e _ hq ha =>
    have h₂ := steady_frame.trans hq.steady (steady_asked .dqbuf c₁)
    exact ⟨h₂.tsk, (missed_fmt e _).trans h₂.fmt, h₂.v4lFmt, h₂.v4lBufsize, h₂.trace⟩
  | @frame c₁ b _ hq ha =>
    have h₂ := steady_frame.trans hq.steady (steady_asked .dqbuf c₁)
    obtain ⟨new, ht, hr, -⟩ := hq.steady.trace
    refine ⟨h₂.tsk, h₂.fmt, h₂.v4lFmt, h₂.v4lBufsize,
      ⟨.dqbuf, c₁.drv, answer D .dqbuf c₁.drv⟩ :: new, congrArg (_ :: ·) ht, fun x hx => ?_,
      fun hx => absurd ⟨c₁.drv, by rw [ha]⟩ (hx _ List.mem_cons_self b)⟩
    rcases List.mem_cons.mp hx with rfl | hx
    · rfl
    · exact hr x hx

theorem v4l2SetInput_steady (map : Ptr Buf) (width height : Nat) :
    Keeps (Steady D) (v4l2SetInput D decodeJpegRaw map width height) :=
  keeps_v4l2SetInput
    (fun c => (v4l2Next_called D decodeJpegRaw map width height c).steady) steady_capture

/-- A call that succeeds has converted what the driver delivered. -/
theorem Called.success {map : Ptr Buf} {w h : Nat} {c c' : Cam δ} {ret : Int}
    (hc : Called D decodeJpegRaw map w h c ret c') (hret : ret = 0) :
    ∃ d b rest k bufsize len, ∃ m : Mem Buf, answer D .dqbuf d = .ok b ∧
      c'.trace = ⟨.dqbuf, d, .ok b⟩ :: rest ∧
      c'.mem = (convert decodeJpegRaw c.s.fmt.pixelformat map ⟨.frame k, 0⟩ w h bufsize len
        (deliver k b.frame m)).2 := by
  cases hc with
  | fatal _ => cases hret
  | refused _ _ _ => cases hret
  | missed _ _ _ => split at hret <;> cases hret
  | @frame c₁ b _ hq ha =>
    have hfmt : c₁.s.fmt.pixelformat = c.s.fmt.pixelformat := by rw [hq.steady.fmt]
    refine ⟨c₁.drv, b, c₁.trace, b.index, c₁.viddev.v4lBufsize.toNat,
      ((holdFrame b (cleared c₁).s).buffers b.index).contentLength, c₁.mem, ha,
      congrArg (fun a => (⟨.dqbuf, c₁.drv, a⟩ : Exchange δ) :: _) ha, ?_⟩
    rw [← hfmt]
    rfl

/-! ## The dimensions of the device -/

def SameDimensions (c c' : Cam δ) : Prop :=
  c'.viddev.width = c.viddev.width ∧ c'.viddev.height = c.viddev.height

theorem sameDimensions_picturing : Picturing D SameDimensions where
  refl _ := ⟨rfl, rfl⟩
  trans h h' := ⟨h'.1.trans h.1, h'.2.trans h.2⟩
  asked _ _ _ := ⟨rfl, rfl⟩
  source _ _ _ := ⟨rfl, rfl⟩
  setting _ _ _ _ hw hh := ⟨hw, hh⟩
  sampled _ _ := ⟨rfl, rfl⟩

theorem Requeued.keeps {c c₁ : Cam δ} (h : Requeued D (blocked c) c₁) :
    c₁.viddev = c.viddev ∧ c₁.mem = c.mem := by
  cases h with
  | nothing _ => exact ⟨rfl, rfl⟩
  | given _ _ => exact ⟨rfl, rfl⟩

theorem Called.viddev {map : Ptr Buf} {width height : Nat} {c c' : Cam δ} {ret : Int}
    (h : Called D decodeJpegRaw map width height c ret c') : c'.viddev = c.viddev := by
  cases h with
  | fatal _ => rfl
  | refused _ _ _ => rfl
  | missed _ hq _ => exact hq.keeps.1
  | frame _ hq _ => exact hq.keeps.1

theorem v4l2Next_viddev (map : Ptr Buf) (width height : Nat) (c : Cam δ) :
    (v4l2Next D decodeJpegRaw map width height c).2.viddev = c.viddev :=
  (v4l2Next_called D decodeJpegRaw map width height c).viddev

def DeviceIs (width height : Nat) (c : Cam δ) : Prop :=
  c.viddev.width = width ∧ c.viddev.height = height

/-- What keeps the dimensions keeps that they are these. -/
theorem deviceIs_kept {α : Type} {width height : Nat} {p : Prog (Cam δ) α}
    (hp : Keeps SameDimensions p) :
    Triple (DeviceIs width height) p fun _ => DeviceIs width height := fun c hc =>
  ⟨(hp c).1.trans hc.1, (hp c).2.trans hc.2⟩

/-- The switch of inputs leaves the device at the dimensions it was asked for. -/
theorem v4l2SetInput_deviceIs (map : Ptr Buf) (width height : Nat) :
    Triple (fun _ => True) (v4l2SetInput D decodeJpegRaw map width height)
      fun _ => DeviceIs width height := by
  have hp := sameDimensions_picturing (D := D)
  have hnext : Keeps SameDimensions (v4l2Next D decodeJpegRaw map width height) := fun c => by
    rw [SameDimensions, v4l2Next_viddev]
    exact ⟨rfl, rfl⟩
  refine triple_get fun c₀ => triple_get fun c₁ => triple_ite (fun _ => ?_) fun hsame => ?_
  · refine triple_bind (fun _ _ => True) (fun _ _ => trivial) fun _ => ?_
    refine triple_bind (fun _ _ => True) (fun _ _ => trivial) fun switchTime => ?_
    refine triple_bind (fun _ _ => True) (fun _ _ => trivial) fun _ => ?_
    refine triple_bind (fun _ => DeviceIs width height) (triple_modify fun _ _ => ⟨rfl, rfl⟩) ?_
    intro _
    refine triple_get fun c₂ => ?_
    refine triple_bind (fun _ => DeviceIs width height) (triple_conseq (deviceIs_kept
      (keeps_skipFrames hnext hp.toFrame switchTime _)) fun _ hc => hc.1) fun _ => ?_
    exact deviceIs_kept (keeps_skipMore hnext hp.toFrame _)
  · -- nothing changed since the last capture, so the device has these dimensions
    refine triple_conseq (deviceIs_kept (keeps_v4l2PictureControls hp)) ?_
    rintro c ⟨-, rfl⟩
    push Not at hsame
    exact ⟨hsame.2.1.symm, hsame.2.2.1.symm⟩

/-! ## The whole call -/

theorem videoV4l2Next_eq (map : Ptr Buf) (c : Cam δ) :
    videoV4l2Next D decodeJpegRaw map c =
      let c₁ := (v4l2SetInput D decodeJpegRaw map c.tsk.imgs.width c.tsk.imgs.height c).2
      let r := v4l2Next D decodeJpegRaw map c.tsk.imgs.width c.tsk.imgs.height c₁
      (r.1, (rotateCaptured map r.2).2) := rfl

theorem rotateCaptured_state (map : Ptr Buf) (c : Cam δ) :
    (rotateCaptured map c).2 =
      if c.tsk.rotateData.degrees > 0 then { c with mem := (rotateMap c.tsk map c.mem).2 }
      else c := by
  simp only [rotateCaptured, get_bind]
  split <;> rfl

/-- The context and the formats are the same. -/
structure SameSetup (c c' : Cam δ) : Prop where
  tsk : c'.tsk = c.tsk
  fmt : c'.s.fmt = c.s.fmt
  v4lFmt : c'.viddev.v4lFmt = c.viddev.v4lFmt

theorem sameSetup_frame : Frame (SameSetup (δ := δ)) where
  refl _ := ⟨rfl, rfl, rfl⟩
  trans h h' := ⟨h'.tsk.trans h.tsk, h'.fmt.trans h.fmt, h'.v4lFmt.trans h.v4lFmt⟩

theorem Steady.sameSetup {c c' : Cam δ} (h : Steady D c c') : SameSetup c c' :=
  ⟨h.tsk, h.fmt, h.v4lFmt⟩

/-- A capture keeps the set-up, and leaves the device at the images' dimensions. -/
theorem videoV4l2Next_setup (map : Ptr Buf) (c : Cam δ) :
    SameSetup c (videoV4l2Next D decodeJpegRaw map c).2 ∧
      DeviceIs c.tsk.imgs.width c.tsk.imgs.height (videoV4l2Next D decodeJpegRaw map c).2 := by
  rw [videoV4l2Next_eq]
  dsimp only
  have hset : Steady D c
      (v4l2SetInput D decodeJpegRaw map c.tsk.imgs.width c.tsk.imgs.height c).2 :=
    v4l2SetInput_steady _ _ _ _
  have hdim : DeviceIs c.tsk.imgs.width c.tsk.imgs.height
      (v4l2SetInput D decodeJpegRaw map c.tsk.imgs.width c.tsk.imgs.height c).2 :=
    v4l2SetInput_deviceIs _ _ _ c trivial
  generalize (v4l2SetInput D decodeJpegRaw map c.tsk.imgs.width c.tsk.imgs.height c).2 = c₁ at *
  have hnext := (v4l2Next_called D decodeJpegRaw map c.tsk.imgs.width c.tsk.imgs.height c₁).steady
  have hdev := (v4l2Next_called D decodeJpegRaw map c.tsk.imgs.width c.tsk.imgs.height c₁).viddev
  have hsame := (steady_frame.trans hset hnext).sameSetup
  generalize v4l2Next D decodeJpegRaw map c.tsk.imgs.width c.tsk.imgs.height c₁ = r at *
  rw [DeviceIs, ← hdev] at hdim
  rw [rotateCaptured_state]
  split
  · exact ⟨⟨hsame.tsk, hsame.fmt, hsame.v4lFmt⟩, hdim⟩
  · exact ⟨hsame, hdim⟩

/-! ## A plain camera -/

/-- One input, no tuner, no controls, every format as asked, and always frame `b`. -/
def plain (b : Dequeued) : (r : Request) → Except Errno r.Reply
  | .openDevice => .ok (3 : Nat)
  | .querycap => .ok (⟨true, true⟩ : Capability)
  | .enuminput _ => .ok (⟨false, 0⟩ : Input)
  | .gStd | .enumstd _ | .gTuner _ | .enumFmt _ | .queryctrl _ | .gCtrl _ => .error 22
  | .tryFmt fmt => .ok (fmt : PixFormat)
  | .sFmt fmt => .ok (fmt : PixFormat)
  | .reqbufs n => .ok (n : Nat)
  | .querybuf _ => .ok (0 : Nat)
  | .dqbuf => .ok b
  | .sInput _ | .sStd _ | .sFrequency _ _ | .sCtrl _ _ | .mmap _ | .qbuf _ | .streamon
  | .streamoff => .ok ()

def camera (b : Dequeued) : Driver δ where
  ioctl r d := (plain b r, d)
  gettimeofday d := (⟨0, 0⟩, d)
  standards := 0
  formats := 0
  standards_end _ _ _ := ⟨_, rfl⟩
  formats_end _ _ _ := ⟨_, rfl⟩

/-- Every call of `v4l2_next` on it converts its frame. -/
theorem camera_called {b : Dequeued} {map : Ptr Buf} {width height : Nat} {c c' : Cam δ} {ret : Int}
    (hc : Called (camera b) decodeJpegRaw map width height c ret c')
    (hf : c.viddev.v4lFmt = paletteYuv420p) :
    ∃ c₁, Requeued (camera b) (blocked c) c₁ ∧
      (ret, c') = convertFrame decodeJpegRaw map width height
        (held b c.sigmask (after (camera b) .dqbuf (cleared c₁))) := by
  cases hc with
  | fatal hn => exact absurd hf hn
  | refused _ _ ha => cases ha
  | missed _ _ ha => cases ha
  | @frame c₁ b' _ hq ha =>
    cases ha
    exact ⟨c₁, hq, rfl⟩

/-- It succeeds with a format whose conversion does. -/
theorem camera_success {b : Dequeued} {map : Ptr Buf} {width height : Nat} {c c' : Cam δ} {ret : Int}
    (hc : Called (camera b) decodeJpegRaw map width height c ret c')
    (hf : c.viddev.v4lFmt = paletteYuv420p)
    (hconv : ∀ src bufsize len m, (convert decodeJpegRaw c.s.fmt.pixelformat map src width height
      bufsize len m).1 = 0) : ret = 0 := by
  obtain ⟨c₁, hq, heq⟩ := camera_called hc hf
  have hfmt : c₁.s.fmt.pixelformat = c.s.fmt.pixelformat := by rw [hq.steady.fmt]
  rw [show ret = _ from (Prod.ext_iff.mp heq).1]
  simp only [convertFrame, held, after_s, cleared, holdFrame, hfmt]
  exact hconv _ _ _ _

end SmartPrince.Common.VideoSpec
