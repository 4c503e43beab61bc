import SmartPrince.Common.StartSoundness
import SmartPrince.Eyes.MotionThread

/-! # What becomes of the device when the start fails

A failed `open` frees the device at once, a failed `v4l2_start` leaves the
private pointer `NULL`; `motion_thread_start` closes and frees the device in
either case. The start that gets as far as a granted `VIDIOC_STREAMON`, its
last request, is the one that can be taken back. -/
namespace SmartPrince.Eyes.StartupSoundness
open SmartPrince.Lib.Program SmartPrince.Lib.Watch
open SmartPrince.Common.CameraState SmartPrince.Common.V4l2 SmartPrince.Common.VideoSpec
open SmartPrince.Common.Video (v4l2DoSetPixFormat v4l2SetPixFormat v4l2SetMmap)
open SmartPrince.Common.StartSoundness (configured)
open SmartPrince.Eyes.MotionThread

variable {δ : Type}

/-- The structure is freed at most once and not used after it, and the private
pointer is not dereferenced while it is `NULL`. -/
structure Clean (log : List Use) : Prop where
  once : log.count .free ≤ 1
  unused : ∀ later earlier, log = later ++ .free :: earlier → .device ∉ later
  there : .source false ∉ log

/-- The driver starts the stream. -/
def Streams (x : Exchange δ) : Prop := ∃ d, x = ⟨.streamon, d, .ok ()⟩

/-! ## Whether the stream was started -/

/-- Since `c₀` a stream was started exactly if `p`. -/
def Granted (c₀ : Cam δ) (p : Prop) (c : Cam δ) : Prop :=
  ∃ new, c.trace = new ++ c₀.trace ∧ ((∃ x ∈ new, Streams x) ↔ p)

/-- And the private pointer is the same. -/
structure Since (c₀ : Cam δ) (p : Prop) (c : Cam δ) : Prop where
  v4l2Private : c.v4l2Private = c₀.v4l2Private
  trace : Granted c₀ p c

def Idle (c c' : Cam δ) : Prop := Since c False c'

variable {c₀ c c' : Cam δ} {p : Prop}

/-- Nothing was asked. -/
theorem idle_silent (hp : c'.v4l2Private = c.v4l2Private) (ht : c'.trace = c.trace) : Idle c c' :=
  ⟨hp, [], ht, by simp⟩

theorem Granted.idle (hg : Granted c₀ p c) (h : Idle c c') : Granted c₀ p c' := by
  obtain ⟨new, ht, hx⟩ := hg
  obtain ⟨new', ht', hx'⟩ := h.trace
  refine ⟨new' ++ new, by rw [ht', ht, List.append_assoc], ?_⟩
  rw [← hx]
  constructor
  · rintro ⟨x, hm, hs⟩
    exact ⟨x, (List.mem_append.mp hm).resolve_left fun hn => hx'.mp ⟨x, hn, hs⟩, hs⟩
  · rintro ⟨x, hm, hs⟩
    exact ⟨x, List.mem_append_right _ hm, hs⟩

theorem Since.idle (hs : Since c₀ p c) (h : Idle c c') : Since c₀ p c' :=
  ⟨h.v4l2Private.trans hs.v4l2Private, hs.trace.idle h⟩

theorem Since.congr {q : Prop} (hs : Since c₀ p c) (h : p ↔ q) : Since c₀ q c := by
  rwa [← propext h]

/-- Only the private state changed. -/
theorem idle_source {g : Cam δ → SrcV4l2} (c : Cam δ) : Idle c { c with s := g c } :=
  idle_silent rfl rfl

theorem idle_frame : Frame (Idle (δ := δ)) where
  refl _ := idle_silent rfl rfl
  trans h h' := Since.idle h h'

variable (D : Driver δ)

theorem idle_asked {r : Request} (hr : r.startsStream = false) : Keeps Idle (xioctl D r) := by
  intro c
  refine ⟨rfl, [_], rfl, iff_of_false ?_ id⟩
  rintro ⟨x, hx, d, rfl⟩
  injection List.mem_singleton.mp hx with hreq
  subst hreq
  cases hr

theorem idle_requesting : Requesting D Idle where
  toFrame := idle_frame
  asked _ _ hr := idle_asked D hr
  source _ _ _ := idle_silent rfl rfl

theorem v4l2DoSetPixFormat_idle (pixformat : PixFmt) (width height : Nat) :
    Keeps Idle (v4l2DoSetPixFormat D pixformat width height) := by
  refine keeps_bind idle_frame (keeps_modify fun _ => idle_silent rfl rfl) fun _ => ?_
  refine keeps_bind idle_frame (idle_asked D rfl) fun ans => ?_
  cases ans with
  | error e => exact keeps_pure idle_frame _
  | ok fmt =>
    refine keeps_bind idle_frame (keeps_modify fun _ => idle_silent rfl rfl) fun _ => ?_
    refine keeps_ite ?_ (keeps_pure idle_frame _)
    refine keeps_bind idle_frame (idle_asked D rfl) fun ans => ?_
    cases ans with
    | error e => exact keeps_pure idle_frame _
    | ok fmt =>
      exact keeps_bind idle_frame (keeps_modify fun _ => idle_silent rfl rfl) fun _ =>
        keeps_pure idle_frame _

theorem v4l2SetPixFormat_idle (width height : Nat) :
    Keeps Idle (v4l2SetPixFormat D width height) := by
  refine keeps_bind idle_frame (keeps_get idle_frame) fun c => ?_
  refine keeps_bind idle_frame (v4l2DoSetPixFormat_idle D _ _ _) fun ⟨ret, w, h⟩ => ?_
  refine keeps_ite (keeps_pure idle_frame _) ?_
  refine keeps_bind idle_frame (keeps_enumFormats (idle_requesting D) _ _ _) fun index => ?_
  refine keeps_ite ?_ (keeps_pure idle_frame _)
  refine keeps_bind idle_frame (v4l2DoSetPixFormat_idle D _ _ _) fun ⟨ret, w, h⟩ => ?_
  exact keeps_ite (keeps_pure idle_frame _) (keeps_pure idle_frame _)

/-- An idle program between. -/
theorem triple_idle {α : Type} {q : Prog (Cam δ) α} (hq : Keeps Idle q) :
    Triple (Since c₀ p) q fun _ => Since c₀ p := fun c hs => hs.idle (hq c)

theorem streamon_asked :
    Triple (Since c₀ False) (xioctl D .streamon) fun ans => Since c₀ (ans = .ok ()) := by
  intro c hs
  obtain ⟨new, ht, hno⟩ := hs.trace
  refine ⟨hs.v4l2Private, _ :: new, congrArg (_ :: ·) ht, ?_⟩
  constructor
  · rintro ⟨x, hm, d, rfl⟩
    rcases List.mem_cons.mp hm with he | hm
    · injection he with _ _ ha
      exact ha.symm
    · exact absurd ⟨_, hm, d, rfl⟩ hno.mp
  · intro ha
    exact ⟨_, List.mem_cons_self, c.drv, congrArg (fun a => (⟨.streamon, c.drv, a⟩ : Exchange δ)) ha⟩

/-- The stream is the last that is asked for. -/
theorem v4l2SetMmap_streams :
    Triple (Since c₀ False) (v4l2SetMmap D) fun ret => Since c₀ (ret = 0) := by
  have hr := idle_requesting D
  have hfail : Triple (Since c₀ False) (pure (-1) : Prog (Cam δ) Int)
      fun ret => Since c₀ (ret = 0) := triple_pure fun c hs => hs.congr (by decide)
  refine triple_keep (triple_idle (keeps_get idle_frame)) fun c => ?_
  refine triple_ite (fun _ => hfail) fun _ => ?_
  refine triple_keep (triple_idle (keeps_modify idle_source)) fun _ => ?_
  refine triple_keep (triple_idle (idle_asked D rfl)) ?_
  rintro (e | (count : Nat))
  · exact hfail
  · refine triple_keep (triple_idle (keeps_modify idle_source)) fun _ => ?_
    refine triple_ite (fun _ => hfail) fun _ => ?_
    refine triple_keep (triple_idle (keeps_modify idle_source)) fun _ => ?_
    refine triple_keep (triple_idle (keeps_mapBuffers hr _ _)) fun _ => ?_
    refine triple_ite (fun _ => hfail) fun _ => ?_
    refine triple_keep (triple_idle (keeps_queueBuffers hr _ _)) fun _ => ?_
    refine triple_ite (fun _ => hfail) fun _ => ?_
    refine triple_bind _ (streamon_asked D) fun ans => ?_
    cases ans with
    | error e => exact triple_pure fun c hs => hs.congr (by simp)
    | ok a => exact triple_pure fun c hs => hs.congr (iff_of_true rfl rfl)

/-! ## The start, up to `_motion_init` -/

theorem v4l2StartSteps_streams (width height : Nat) (input norm : Int) (freq : Nat) :
    Triple (Since c₀ False) (Common.Video.v4l2StartSteps D width height input norm freq)
      fun ok => Since c₀ (ok = true) := by
  have hr := idle_requesting D
  have hfail : Triple (Since c₀ False) (pure false : Prog (Cam δ) Bool)
      fun ok => Since c₀ (ok = true) := triple_pure fun c hs => hs.congr (by decide)
  refine triple_keep (triple_idle (keeps_v4l2GetCapability hr)) fun _ => ?_
  refine triple_ite (fun _ => hfail) fun _ => ?_
  refine triple_keep (triple_idle (keeps_v4l2SelectInput hr _ _ _)) fun _ => ?_
  refine triple_ite (fun _ => hfail) fun _ => ?_
  refine triple_keep (triple_idle (v4l2SetPixFormat_idle D width height)) fun ⟨ret, w, h⟩ => ?_
  refine triple_ite (fun _ => hfail) fun _ => ?_
  refine triple_keep (triple_idle (keeps_v4l2ScanControls hr)) fun _ => ?_
  refine triple_ite (fun _ => hfail) fun _ => ?_
  refine triple_bind _ (v4l2SetMmap_streams D) fun ret => ?_
  refine triple_ite (fun hret => ?_) fun hret => ?_
  · exact triple_pure fun c hs => hs.congr (by simpa using hret)
  · exact triple_pure fun c hs => hs.congr (by simpa using hret)

/-- And the private pointer is there exactly if `p`. -/
structure Begun (c₀ : Cam δ) (p : Prop) (c : Cam δ) : Prop where
  v4l2Private : c.v4l2Private = true ↔ p
  trace : Granted c₀ p c

theorem Begun.congr {q : Prop} (hb : Begun c₀ p c) (h : p ↔ q) : Begun c₀ q c := by
  rwa [← propext h]

theorem v4l2Start_begun (width height : Nat) (input norm : Int) (freq : Nat) :
    Triple (Granted c₀ False) (Common.Video.v4l2Start D width height input norm freq)
      fun ok => Begun c₀ (ok = true) := by
  refine triple_bind (fun _ => Since { c₀ with v4l2Private := true } False)
    (triple_modify fun c hc => ⟨rfl, hc⟩) fun _ => ?_
  refine triple_bind _ (v4l2StartSteps_streams D width height input norm freq) fun ok => ?_
  refine triple_ite (fun hok => triple_pure fun c hs => ?_) fun hok => ?_
  · exact ⟨iff_of_true hs.v4l2Private rfl, (hs.congr (iff_of_true hok rfl)).trace⟩
  · refine triple_bind (fun _ => Begun c₀ False) (triple_modify fun c hs => ?_) fun _ =>
      triple_pure fun c hb => hb.congr (by decide)
    exact ⟨iff_of_false Bool.false_ne_true id, (hs.congr (iff_of_false hok id)).trace⟩

theorem videoV4l2Start_begun :
    Triple (fun c => c.v4l2Private = false ∧ Granted c₀ False c) (Common.Video.videoV4l2Start D)
      fun ret => Begun c₀ (0 ≤ ret) := by
  refine triple_bind (fun _ => Since { c₀ with v4l2Private := false } False)
    (fun c hc => Since.idle ⟨hc.1, hc.2⟩ (idle_asked D rfl c)) ?_
  rintro (e | (fd : Nat))
  · refine triple_pure fun c hs =>
      ⟨iff_of_false (fun hp => ?_) (by decide), (hs.congr (by decide)).trace⟩
    exact Bool.false_ne_true (hs.v4l2Private.symm.trans hp)
  · refine triple_bind (fun _ => Granted c₀ False) (triple_modify fun c hs => hs.trace) fun _ => ?_
    refine triple_get fun c => ?_
    refine triple_bind _ (triple_conseq (v4l2Start_begun D _ _ _ _ _) fun _ hc => hc.1) fun ok => ?_
    refine triple_ite (fun hok => ?_) fun hok => ?_
    · refine triple_keep (triple_modify fun c hb => ⟨hb.1, hb.2⟩) fun _ =>
        triple_pure fun c hb => hb.congr (iff_of_true hok (Int.natCast_nonneg fd))
    · exact triple_pure fun c hb => hb.congr (iff_of_false hok (by decide))

theorem motionInit_begun (color : Int) :
    Triple (fun c => c.v4l2Private = false ∧ Granted c₀ False c) (Motion.motionInit D color)
      fun ret => Begun c₀ (0 ≤ ret) := by
  refine triple_keep (triple_modify fun c hc => hc) fun _ => ?_
  refine triple_keep (triple_modify fun c hc => hc) fun _ => ?_
  refine triple_bind _ (videoV4l2Start_begun D) fun videoDev => ?_
  refine triple_keep (triple_modify fun c hb => ⟨hb.1, hb.2⟩) fun _ => ?_
  refine triple_ite (fun hneg => triple_pure fun c hb => hb.congr (by omega)) fun hneg => ?_
  refine triple_keep (triple_modify fun c hb => ⟨hb.1, hb.2⟩) fun _ => ?_
  refine triple_keep (triple_modify fun c hb => ⟨hb.1, hb.2⟩) fun _ => ?_
  exact triple_pure fun c hb => hb.congr (by omega)

/-! ## What is noted of it -/

/-- The structure is used, and the private pointer is there where it is. -/
def Live (log : List Use) : Prop := ∀ u ∈ log, u = .device ∨ u = .source true

theorem Live.device {log : List Use} (h : Live log) : Live (.device :: log) :=
  List.forall_mem_cons.mpr ⟨.inl rfl, h⟩

theorem Live.source {log : List Use} (h : Live log) : Live (.source true :: log) :=
  List.forall_mem_cons.mpr ⟨.inr rfl, h⟩

theorem Live.not_mem {log : List Use} (h : Live log) : .free ∉ log ∧ .source false ∉ log :=
  ⟨fun hm => by simpa using h _ hm, fun hm => by simpa using h _ hm⟩

theorem Live.clean {log : List Use} (h : Live log) : Clean log where
  once := by rw [List.count_eq_zero_of_not_mem h.not_mem.1]; exact Nat.zero_le 1
  unused later earlier he := absurd (he ▸ by simp) h.not_mem.1
  there := h.not_mem.2

/-- The last use may be the one that frees it. -/
theorem Live.clean_free {log : List Use} (h : Live log) : Clean (.free :: log) where
  once := by rw [List.count_cons_self, List.count_eq_zero_of_not_mem h.not_mem.1]
  unused later earlier he := by
    cases later with
    | nil => exact List.not_mem_nil
    | cons u later =>
      obtain ⟨-, hlog⟩ := List.cons.inj he
      exact absurd (hlog ▸ by simp) h.not_mem.1
  there hm := h.not_mem.2 ((List.mem_cons.mp hm).resolve_left (by decide))

theorem note_live : Triple (fun l : Watched δ => Live l.log) (note .device) fun _ l => Live l.log :=
  triple_note fun _ hl => hl.device

/-- A note of the private pointer, which is there. -/
theorem useSource_live {α : Type} {q : PUnit → Prog (Watched δ) α} {Q : α → Watched δ → Prop}
    (h : Triple (fun l => l.state.v4l2Private = true ∧ Live l.log) (q ⟨⟩) Q) :
    Triple (fun l => l.state.v4l2Private = true ∧ Live l.log) (useSource >>= q) Q := by
  intro l ⟨hp, hl⟩
  refine h _ ⟨hp, ?_⟩
  show Live (.source l.state.v4l2Private :: l.log)
  rw [hp]
  exact hl.source

/-- A call that leaves it there. -/
theorem act_live {α β : Type} {q : Prog (Cam δ) α} (hq : ∀ c, (q c).2.v4l2Private = c.v4l2Private)
    {g : α → Prog (Watched δ) β} {Q : β → Watched δ → Prop}
    (h : ∀ a, Triple (fun l => l.state.v4l2Private = true ∧ Live l.log) (g a) Q) :
    Triple (fun l => l.state.v4l2Private = true ∧ Live l.log) (act q >>= g) Q :=
  triple_keep (triple_act fun l hl => ⟨(hq l.state).trans hl.1, hl.2⟩) h

theorem v4l2StartSteps_live (width height : Nat) (input norm : Int) (freq : Nat) :
    Triple (fun l => l.state.v4l2Private = true ∧ Live l.log)
      (MotionThread.v4l2StartSteps D width height input norm freq) fun _ l => Live l.log := by
  have hr := idle_requesting D
  have hdone : ∀ ok : Bool, Triple (fun l : Watched δ => l.state.v4l2Private = true ∧ Live l.log)
      (pure ok) fun _ l => Live l.log := fun ok => triple_pure fun l hl => hl.2
  refine useSource_live (act_live (fun c => (keeps_v4l2GetCapability hr c).v4l2Private) fun _ => ?_)
  refine triple_ite (fun _ => hdone _) fun _ => ?_
  refine useSource_live (act_live (fun c => (keeps_v4l2SelectInput hr _ _ _ c).v4l2Private)
    fun _ => ?_)
  refine triple_ite (fun _ => hdone _) fun _ => ?_
  refine useSource_live (act_live (fun c => (v4l2SetPixFormat_idle D _ _ c).v4l2Private)
    fun ⟨ret, w, h⟩ => ?_)
  refine triple_ite (fun _ => hdone _) fun _ => ?_
  refine useSource_live (act_live (fun c => (keeps_v4l2ScanControls hr c).v4l2Private) fun _ => ?_)
  refine triple_ite (fun _ => hdone _) fun _ => ?_
  refine useSource_live (act_live (fun c => ?_) fun _ => ?_)
  · exact (v4l2SetMmap_streams D c (idle_frame.refl c)).v4l2Private
  · exact triple_ite (fun _ => hdone _) fun _ => hdone _

theorem v4l2Start_live (width height : Nat) (input norm : Int) (freq : Nat) :
    Triple (fun l => Live l.log) (MotionThread.v4l2Start D width height input norm freq)
      fun _ l => Live l.log := by
  refine triple_keep note_live fun _ => ?_
  refine triple_bind (fun _ l => l.state.v4l2Private = true ∧ Live l.log)
    (triple_act fun l hl => ⟨rfl, hl⟩) fun _ => ?_
  refine useSource_live (triple_bind _ (v4l2StartSteps_live D width height input norm freq)
    fun ok => ?_)
  refine triple_ite (fun _ => ?_) fun _ => ?_
  · exact triple_keep note_live fun _ =>
      triple_pure fun l hl => hl
  · refine triple_keep note_live fun _ => ?_
    exact triple_keep (act_log _) fun _ =>
      triple_pure fun l hl => hl

/-- After a start that returns `ret` the device is there, or it was freed last
and `ret` is negative. -/
def Noted (ret : Int) (l : Watched δ) : Prop :=
  Live l.log ∨ ret < 0 ∧ ∃ log, l.log = .free :: log

theorem videoV4l2Start_noted :
    Triple (fun l => Live l.log) (MotionThread.videoV4l2Start D) Noted := by
  refine triple_keep note_live fun _ => ?_
  refine triple_keep (act_log _) ?_
  rintro (e | (fd : Nat))
  · exact triple_bind (fun _ l => ∃ log, l.log = .free :: log) (triple_note fun l _ => ⟨l.log, rfl⟩)
      fun _ => triple_pure fun l hl => .inr ⟨by decide, hl⟩
  · refine triple_keep note_live fun _ => ?_
    refine triple_keep (act_log _) fun _ => ?_
    refine triple_keep (act_log _) fun c => ?_
    refine triple_bind _ (v4l2Start_live D _ _ _ _ _) fun ok => ?_
    refine triple_ite (fun _ => ?_) fun _ => triple_pure fun l hl => .inl hl
    refine triple_keep note_live fun _ => ?_
    exact triple_keep (act_log _) fun _ =>
      triple_pure fun l hl => .inl hl

theorem motionInit_noted (color : Int) :
    Triple (fun l => Live l.log) (MotionThread.motionInit D color) Noted := by
  refine triple_keep note_live fun _ => ?_
  refine triple_keep (act_log _) fun _ => ?_
  refine triple_keep note_live fun _ => ?_
  refine triple_keep (act_log _) fun _ => ?_
  refine triple_bind _ (videoV4l2Start_noted D) fun videoDev => ?_
  refine triple_keep (triple_act fun l hl => hl) fun _ => ?_
  refine triple_ite (fun hneg => triple_pure fun l hl => ?_) fun hneg => ?_
  · exact hl.imp_right fun hf => ⟨by decide, hf.2⟩
  · refine triple_bind (fun _ l => Live l.log) (triple_note fun l hl => ?_) fun _ => ?_
    · exact (hl.resolve_right fun hf => hneg hf.1).device
    · refine triple_keep (act_log _) fun _ => ?_
      exact triple_keep (act_log _) fun _ =>
        triple_pure fun l hl => .inl hl

/-! ## The whole start -/

/-- The private pointer is `NULL`: its read is the last use. -/
theorem discardDevice_null {l : Watched δ} (hp : l.state.v4l2Private = false) :
    (discardDevice D l).2 = ⟨l.state, .source false :: .device :: l.log⟩ := by
  obtain ⟨⟨_, _, _, there, _, _, _, _⟩, log⟩ := l
  subst hp
  rfl

/-- It is there: the stream is stopped, and the structure freed last. -/
theorem discardDevice_there {l : Watched δ} (hp : l.state.v4l2Private = true) :
    (discardDevice D l).2.log = .free :: .source true :: .device :: l.log ∧
      Idle l.state (discardDevice D l).2.state := by
  obtain ⟨⟨tsk, dev, s, there, mem, mask, drv, trace⟩, log⟩ := l
  subst hp
  refine ⟨rfl, ?_⟩
  have hoff := idle_asked D (r := .streamoff) rfl ⟨tsk, dev, s, true, mem, mask, drv, trace⟩
  exact hoff.idle (idle_source (g := fun c => { c.s with fd := -1 }) _)

/-- What was noted when `_motion_init` has returned, and the state then. -/
structure Initialised (c₀ : Cam δ) (ret : Int) (l : Watched δ) : Prop where
  begun : Begun c₀ (0 ≤ ret) l.state
  noted : Noted ret l

theorem motionInit_initialised (color : Int) :
    Triple (fun l => (l.state.v4l2Private = false ∧ Granted c₀ False l.state) ∧ Live l.log)
      (MotionThread.motionInit D color) (Initialised c₀) := by
  intro l ⟨hc, hl⟩
  obtain ⟨hret, hstate⟩ := motionInit_watches D color l
  have hbegun := motionInit_begun D color l.state hc
  rw [← hret, ← hstate] at hbegun
  exact ⟨hbegun, motionInit_noted D color l hl⟩

/-- The stream was started, and the device was cleanly used, or neither. -/
def Settled (c₀ : Cam δ) (l : Watched δ) : Prop :=
  (Clean l.log ∧ Granted c₀ True l.state) ∨ (¬ Clean l.log ∧ Granted c₀ False l.state)

/-- A start that failed cannot be taken back. -/
theorem Initialised.discard_failed {ret : Int} {l : Watched δ} (h : Initialised c₀ ret l)
    (hret : ret < 0) : Settled c₀ (discardDevice D l).2 := by
  have hno : ¬ 0 ≤ ret := by omega
  have hnull : l.state.v4l2Private = false :=
    Bool.eq_false_iff.mpr fun hp => hno (h.begun.v4l2Private.mp hp)
  rw [discardDevice_null D hnull]
  exact .inr ⟨fun hc => hc.there List.mem_cons_self, (h.begun.congr (iff_of_false hno id)).trace⟩

/-- One that succeeded can. -/
theorem Initialised.discard_started {ret : Int} {l : Watched δ} (h : Initialised c₀ ret l)
    (hret : ¬ ret < 0) : Settled c₀ l ∧ Settled c₀ (discardDevice D l).2 := by
  have hret' : 0 ≤ ret := by omega
  have hlive := h.noted.resolve_right fun hf => hret hf.1
  have hgranted := (h.begun.congr (iff_of_true hret' trivial)).trace
  obtain ⟨hlog, hidle⟩ := discardDevice_there D (h.begun.v4l2Private.mpr hret')
  refine ⟨.inl ⟨hlive.clean, hgranted⟩, .inl ⟨?_, ?_⟩⟩
  · rw [hlog]
    exact hlive.device.source.clean_free
  · exact hgranted.idle hidle

theorem motionThreadStart_settled (c : Cam δ) (width height : Nat) (color : Int) (created : Bool) :
    Settled c (motionThreadStart D width height color created ⟨c, []⟩).2 := by
  suffices h : Triple (fun l => l.state = c ∧ l.log = [])
      (motionThreadStart D width height color created) fun _ => Settled c from h _ ⟨rfl, rfl⟩
  refine triple_bind (fun _ l => Granted c False l.state ∧ Live l.log) (triple_act ?_) fun _ => ?_
  · rintro l ⟨rfl, hl⟩
    exact ⟨⟨[], rfl, by simp⟩, by simp [Live, hl]⟩
  refine triple_bind (fun _ l => Granted c False l.state ∧ Live l.log)
    (triple_note fun l hl => ⟨hl.1, hl.2.device⟩) fun _ => ?_
  refine triple_bind (fun _ l => (l.state.v4l2Private = false ∧ Granted c False l.state) ∧ Live l.log)
    (triple_act fun l hl => ⟨⟨rfl, hl.1⟩, hl.2⟩) fun _ => ?_
  refine triple_bind _ (motionInit_initialised D color) fun ret => ?_
  refine triple_ite (fun hret l hl => hl.discard_failed D hret) fun hret => ?_
  refine triple_ite (fun _ l hl => (hl.discard_started D hret).2) fun _ => ?_
  exact triple_pure fun l hl => (hl.discard_started D hret).1

/-- **The start uses and frees the device cleanly exactly where the driver
grants the stream**, whether the thread is then created or not. -/
theorem start_clean_iff (c : Cam δ) (width height : Nat) (color : Int) (created : Bool) :
    Clean (motionThreadStart D width height color created ⟨c, []⟩).2.log ↔
      ∃ x ∈ asked c (motionThreadStart D width height color created ⟨c, []⟩).2.state, Streams x := by
  rcases motionThreadStart_settled D c width height color created with h | h
  · obtain ⟨hclean, new, ht, hx⟩ := h
    rw [asked_of ht]
    exact iff_of_true hclean (hx.mpr trivial)
  · obtain ⟨hclean, new, ht, hx⟩ := h
    rw [asked_of ht]
    exact iff_of_false hclean hx.mp

/-- A device that is not there. -/
def absent : Driver Unit where
  ioctl _ d := (.error 2, d)
  gettimeofday d := (⟨0, 0⟩, d)
  standards := 0
  formats := 0
  standards_end _ _ _ := ⟨_, rfl⟩
  formats_end _ _ _ := ⟨_, rfl⟩

/-- The device is freed, and then closed. -/
theorem absent_not_clean :
    ¬ Clean (motionThreadStart absent 320 240 0 true ⟨configured 320 240, []⟩).2.log := fun h =>
  h.there (by decide)

end SmartPrince.Eyes.StartupSoundness
