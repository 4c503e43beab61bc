import SmartPrince.Common.VideoSpec

/-! # The dimensions after start-up

`v4l2_start` takes the dimensions by value and hands on the addresses of its
own copies, so what `VIDIOC_TRY_FMT` adjusts ends there. The one format the
driver grants is in `s->fmt`; the device and the images keep what was configured. -/
namespace SmartPrince.Common.StartSoundness
open SmartPrince.Lib.Program SmartPrince.Lib.Memory
open SmartPrince.Common.CameraState SmartPrince.Common.V4l2 SmartPrince.Common.Video
open SmartPrince.Common.VideoSpec

variable {δ : Type}

/-- The driver grants the format `fmt`. -/
def Grants (fmt : PixFormat) (x : Exchange δ) : Prop := ∃ f d, x = ⟨.sFmt f, d, .ok fmt⟩

def Ungranted (new : List (Exchange δ)) : Prop := ∀ x ∈ new, ∀ fmt, ¬ Grants fmt x

/-- The one format granted. -/
def GrantedOnly (f : PixFormat) (new : List (Exchange δ)) : Prop :=
  ∀ fmt, (∃ x ∈ new, Grants fmt x) ↔ fmt = f

theorem Ungranted.append {new new' : List (Exchange δ)} (h : Ungranted new) (h' : Ungranted new') :
    Ungranted (new' ++ new) :=
  fun x hx => (List.mem_append.mp hx).elim (h' x) (h x)

theorem GrantedOnly.append {f : PixFormat} {new new' : List (Exchange δ)} (h : GrantedOnly f new)
    (h' : Ungranted new') : GrantedOnly f (new' ++ new) := by
  intro fmt
  rw [← h fmt]
  constructor
  · rintro ⟨x, hx, hg⟩
    exact ⟨x, (List.mem_append.mp hx).resolve_left fun hn => h' x hn fmt hg, hg⟩
  · rintro ⟨x, hx, hg⟩
    exact ⟨x, List.mem_append_right _ hx, hg⟩

/-- Only the private state changed but for the format, and no format was granted. -/
structure Quiet (c c' : Cam δ) : Prop where
  tsk : c'.tsk = c.tsk
  viddev : c'.viddev = c.viddev
  fmt : c'.s.fmt = c.s.fmt
  trace : ∃ new, c'.trace = new ++ c.trace ∧ Ungranted new

theorem quiet_asking (D : Driver δ) : Asking D Quiet where
  refl _ := ⟨rfl, rfl, rfl, [], rfl, fun _ hx => nomatch hx⟩
  trans := by
    intro c c' c'' h h'
    obtain ⟨new, ht, hu⟩ := h.trace
    obtain ⟨new', ht', hu'⟩ := h'.trace
    exact ⟨h'.tsk.trans h.tsk, h'.viddev.trans h.viddev, h'.fmt.trans h.fmt, new' ++ new,
      by rw [ht', ht, List.append_assoc], hu.append hu'⟩
  asked := by
    intro r hr c
    refine ⟨rfl, rfl, rfl, [_], rfl, fun x hx fmt ⟨f, d, hg⟩ => ?_⟩
    rw [List.mem_singleton.mp hx] at hg
    injection hg with hreq
    subst hreq
    cases hr
  source _ _ hf := ⟨rfl, rfl, hf, [], rfl, fun _ hx => nomatch hx⟩

/-- Since `c₀` the context and the device are the same, and what was asked meets `P`. -/
structure Since (c₀ : Cam δ) (P : List (Exchange δ) → Prop) (c : Cam δ) : Prop where
  tsk : c.tsk = c₀.tsk
  viddev : c.viddev = c₀.viddev
  trace : ∃ new, c.trace = new ++ c₀.trace ∧ P new

/-- One format was granted since `c₀`, and it is in `s->fmt`. -/
def Settled (c₀ c : Cam δ) : Prop := Since c₀ (GrantedOnly c.s.fmt) c

variable {c₀ c c' : Cam δ}

theorem Quiet.since (h : Quiet c c') (hs : Since c₀ Ungranted c) : Since c₀ Ungranted c' := by
  obtain ⟨new, ht, hu⟩ := hs.trace
  obtain ⟨new', ht', hu'⟩ := h.trace
  exact ⟨h.tsk.trans hs.tsk, h.viddev.trans hs.viddev, new' ++ new,
    by rw [ht', ht, List.append_assoc], hu.append hu'⟩

theorem Quiet.settled (h : Quiet c c') (hs : Settled c₀ c) : Settled c₀ c' := by
  obtain ⟨new, ht, hg⟩ := hs.trace
  obtain ⟨new', ht', hu'⟩ := h.trace
  exact ⟨h.tsk.trans hs.tsk, h.viddev.trans hs.viddev, new' ++ new,
    by rw [ht', ht, List.append_assoc], h.fmt ▸ hg.append hu'⟩

/-! ## The format -/

variable (D : Driver δ)

/-- What `v4l2_do_set_pix_format` and its caller leave. -/
def Chosen (c₀ : Cam δ) (r : Int × Nat × Nat) (c : Cam δ) : Prop :=
  (r.1 = 0 ∧ Settled c₀ c) ∨ (r.1 = -1 ∧ Since c₀ Ungranted c)

section
variable {r : Int × Nat × Nat}

theorem Chosen.settled (h : Chosen c₀ r c) (hr : r.1 ≠ -1) : Settled c₀ c := by
  rcases h with ⟨-, hs⟩ | ⟨hno, -⟩
  · exact hs
  · exact absurd hno hr

theorem Chosen.ungranted (h : Chosen c₀ r c) (hr : r.1 ≠ 0) : Since c₀ Ungranted c := by
  rcases h with ⟨hno, -⟩ | ⟨-, hs⟩
  · exact absurd hno hr
  · exact hs

end

/-- A refusal grants nothing. -/
theorem sFmt_error {f : PixFormat} {e : Errno} (h : Since c₀ Ungranted c)
    (ha : answer D (.sFmt f) c.drv = .error e) : Since c₀ Ungranted (after D (.sFmt f) c) := by
  obtain ⟨new, ht, hu⟩ := h.trace
  have hx : Ungranted [(⟨.sFmt f, c.drv, answer D (.sFmt f) c.drv⟩ : Exchange δ)] := by
    rintro x hx fmt ⟨f', d, rfl⟩
    injection List.mem_singleton.mp hx with _ _ hg
    rw [ha] at hg
    cases hg
  exact ⟨h.tsk, h.viddev, _ :: new, congrArg (_ :: ·) ht, hu.append hx⟩

theorem sFmt_ok {f fmt : PixFormat} (h : Since c₀ Ungranted c)
    (ha : answer D (.sFmt f) c.drv = .ok fmt) :
    Since c₀ (GrantedOnly fmt) (after D (.sFmt f) c) := by
  obtain ⟨new, ht, hu⟩ := h.trace
  have hx : GrantedOnly fmt (⟨.sFmt f, c.drv, answer D (.sFmt f) c.drv⟩ :: new) := by
    rw [ha]
    intro fmt'
    constructor
    · rintro ⟨x, hx, f', d, rfl⟩
      rcases List.mem_cons.mp hx with hx | hx
      · cases hx
        rfl
      · exact absurd ⟨f', d, rfl⟩ (hu _ hx fmt')
    · rintro rfl
      exact ⟨_, List.mem_cons_self, f, c.drv, rfl⟩
  exact ⟨h.tsk, h.viddev, _ :: new, congrArg (_ :: ·) ht, hx⟩

theorem v4l2DoSetPixFormat_chosen (pixformat : PixFmt) (width height : Nat) :
    Triple (Since c₀ Ungranted) (v4l2DoSetPixFormat D pixformat width height) (Chosen c₀) := by
  refine triple_keep (triple_modify fun c h => ⟨h.tsk, h.viddev, h.trace⟩) fun _ => ?_
  refine triple_keep (fun c h => ((quiet_asking D).asked (.tryFmt _) rfl c).since h)
    fun ans => ?_
  cases ans with
  | error e => exact triple_pure fun _ h => .inr ⟨rfl, h⟩
  | ok fmt =>
    refine triple_keep (triple_modify fun c h => ⟨h.tsk, h.viddev, h.trace⟩) fun _ => ?_
    refine triple_ite (fun _ => ?_) fun _ => triple_pure fun _ h => .inr ⟨rfl, h⟩
    refine triple_bind (fun (ans : Except Errno PixFormat) c =>
      (∀ e, ans = .error e → Since c₀ Ungranted c) ∧
        ∀ fmt, ans = .ok fmt → Since c₀ (GrantedOnly fmt) c)
      (fun c h => ⟨fun e ha => sFmt_error D h ha, fun fmt ha => sFmt_ok D h ha⟩) fun ans => ?_
    cases ans with
    | error e => exact triple_pure fun _ h => .inr ⟨rfl, h.1 e rfl⟩
    | ok fmt =>
      refine triple_bind (fun _ => Settled c₀) (triple_modify fun c h => ?_) fun _ =>
        triple_pure fun _ h => .inl ⟨rfl, h⟩
      obtain ⟨htsk, hdev, htrace⟩ := h.2 fmt rfl
      exact ⟨htsk, hdev, htrace⟩

/-- The configured format, or the best of those enumerated. -/
theorem v4l2SetPixFormat_chosen (width height : Nat) :
    Triple (Since c₀ Ungranted) (v4l2SetPixFormat D width height) (Chosen c₀) := by
  refine triple_get fun s₀ => ?_
  refine triple_bind _ (triple_conseq (v4l2DoSetPixFormat_chosen D _ width height)
    fun c h => h.1) fun ⟨ret, w, h⟩ => ?_
  refine triple_ite (fun hret => triple_pure fun c hc => ?_) fun hret => ?_
  · exact .inl ⟨rfl, hc.settled (by dsimp only; omega)⟩
  · refine triple_bind (fun _ => Since c₀ Ungranted) (fun c hc => ?_) fun index => ?_
    · have hs := hc.ungranted (by dsimp only; omega)
      exact (keeps_enumFormats (quiet_asking D).requesting _ _ _ c).since hs
    · refine triple_ite (fun _ => ?_) fun _ => triple_pure fun _ h => .inr ⟨rfl, h⟩
      refine triple_bind _ (v4l2DoSetPixFormat_chosen D _ w h) fun ⟨ret, w, h⟩ => ?_
      refine triple_ite (fun hret => triple_pure fun c hc => ?_)
        fun hret => triple_pure fun c hc => ?_
      · exact .inl ⟨rfl, hc.settled (by dsimp only; omega)⟩
      · exact .inr ⟨rfl, hc.ungranted (by dsimp only; omega)⟩

/-! ## The start -/

/-- A quiet program between. -/
theorem quiet_since {α : Type} {p : Prog (Cam δ) α} (hp : Keeps Quiet p) :
    Triple (Since c₀ Ungranted) p fun _ => Since c₀ Ungranted := fun c h => (hp c).since h

theorem quiet_settled {α : Type} {p : Prog (Cam δ) α} (hp : Keeps Quiet p) :
    Triple (Settled c₀) p fun _ => Settled c₀ := fun c h => (hp c).settled h

theorem v4l2StartSteps_settled (width height : Nat) (input norm : Int) (freq : Nat) :
    Triple (Since c₀ Ungranted) (v4l2StartSteps D width height input norm freq)
      fun ok c => ok = true → Settled c₀ c := by
  have hq := quiet_asking D
  refine triple_keep (quiet_since (keeps_v4l2GetCapability hq.requesting)) fun _ => ?_
  refine triple_ite (fun _ => triple_pure fun _ _ hok => nomatch hok) fun _ => ?_
  refine triple_keep (quiet_since (keeps_v4l2SelectInput hq.requesting _ _ _)) fun _ => ?_
  refine triple_ite (fun _ => triple_pure fun _ _ hok => nomatch hok) fun _ => ?_
  refine triple_bind _ (v4l2SetPixFormat_chosen D width height) fun ⟨ret, w, h⟩ => ?_
  refine triple_ite (fun _ => triple_pure fun _ _ hok => nomatch hok) fun hret => ?_
  refine triple_bind (fun _ => Settled c₀) (fun c hc => ?_) fun _ => ?_
  · have hs := hc.settled (by dsimp only; omega)
    exact (keeps_v4l2ScanControls hq.requesting c).settled hs
  · refine triple_ite (fun _ => triple_pure fun _ _ hok => nomatch hok) fun _ => ?_
    refine triple_keep (quiet_settled (keeps_v4l2SetMmap hq)) fun _ => ?_
    exact triple_ite (fun _ => triple_pure fun _ _ hok => nomatch hok) fun _ =>
      triple_pure fun _ h _ => h

theorem v4l2Start_settled (width height : Nat) (input norm : Int) (freq : Nat) :
    Triple (Since c₀ Ungranted) (v4l2Start D width height input norm freq)
      fun ok c => ok = true → Settled c₀ c := by
  refine triple_keep (triple_modify fun c h => ⟨h.tsk, h.viddev, h.trace⟩) fun _ => ?_
  refine triple_bind _ (v4l2StartSteps_settled D width height input norm freq) fun ok => ?_
  refine triple_ite (fun hok => triple_pure fun _ h _ => h hok) fun _ => ?_
  exact triple_bind (fun _ _ => True) (triple_modify fun _ _ => trivial) fun _ =>
    triple_pure fun _ _ hok => nomatch hok

/-- What a start that succeeds leaves: the device as configured, the images
with the type and size of the device, and in `s->fmt` the one format granted. -/
structure Started (c c' : Cam δ) : Prop where
  viddev : ∃ fd, c'.viddev = startDevice fd c.viddev
  imgs : c'.tsk.imgs = startImages c'.viddev c.tsk.imgs
  conf : c'.tsk.conf = c.tsk.conf
  trace : ∃ new, c'.trace = new ++ c.trace ∧ GrantedOnly c'.s.fmt new

/-- The device is open, and its fields are set. -/
structure Opened (c s : Cam δ) : Prop where
  viddev : ∃ fd, s.viddev = startDevice fd c.viddev
  tsk : s.tsk = c.tsk
  trace : ∃ new, s.trace = new ++ c.trace ∧ Ungranted new

theorem Opened.started {c s c' : Cam δ} (ho : Opened c s) (hs : Settled s c') :
    Started c { c' with tsk := { c'.tsk with imgs := startImages c'.viddev c'.tsk.imgs } } := by
  obtain ⟨fd, hfd⟩ := ho.viddev
  obtain ⟨new, ht, hu⟩ := ho.trace
  obtain ⟨new', ht', hg⟩ := hs.trace
  refine ⟨⟨fd, hs.viddev.trans hfd⟩, ?_, ?_, new' ++ new, ?_, fun fmt => ?_⟩
  · rw [hs.tsk, ho.tsk]
  · rw [hs.tsk, ho.tsk]
  · rw [ht', ht, List.append_assoc]
  · rw [← hg fmt]
    constructor
    · rintro ⟨x, hx, hgx⟩
      exact ⟨x, (List.mem_append.mp hx).resolve_right fun hn => hu x hn fmt hgx, hgx⟩
    · rintro ⟨x, hx, hgx⟩
      exact ⟨x, List.mem_append_left _ hx, hgx⟩

theorem videoV4l2Start_started (c : Cam δ) :
    Triple (fun s => s = c) (videoV4l2Start D) fun ret c' => 0 ≤ ret → Started c c' := by
  refine triple_bind (fun _ => Quiet c) (fun _ h => h ▸ (quiet_asking D).asked _ rfl c)
    fun ans => ?_
  cases ans with
  | error e => exact triple_pure fun _ _ hret => nomatch hret
  | ok fd =>
    refine triple_bind (fun _ => Opened c) (triple_modify fun s hs =>
      ⟨⟨_, congrArg (startDevice (show Nat from fd)) hs.viddev⟩, hs.tsk, hs.trace⟩) fun _ => ?_
    refine triple_get fun s₀ => ?_
    refine triple_bind (fun ok c' => Opened c s₀ ∧ (ok = true → Settled s₀ c')) ?_ fun ok => ?_
    · rintro s ⟨ho, rfl⟩
      exact ⟨ho, v4l2Start_settled D _ _ _ _ _ s ⟨rfl, rfl, [], rfl, fun _ hx => nomatch hx⟩⟩
    · refine triple_ite (fun hok => ?_) fun _ => triple_pure fun _ _ hret => nomatch hret
      exact triple_bind (fun _ => Started c) (triple_modify fun c' h => h.1.started (h.2 hok))
        fun _ => triple_pure fun _ h _ => h

theorem startImages_dimensions (dev : VideoDev) (imgs : Images) :
    (startImages dev imgs).width = imgs.width ∧ (startImages dev imgs).height = imgs.height := by
  unfold startImages
  dsimp only
  split_ifs <;> exact ⟨rfl, rfl⟩

/-- The dimensions of the device and of the images are those in `s->fmt`. -/
def Negotiated (c : Cam δ) : Prop :=
  c.viddev.width = c.s.fmt.width ∧ c.viddev.height = c.s.fmt.height ∧
    c.tsk.imgs.width = c.s.fmt.width ∧ c.tsk.imgs.height = c.s.fmt.height

/-- **The dimensions the program goes on with are those negotiated exactly
where the driver grants the ones configured.** -/
theorem start_negotiated_iff {c : Cam δ} (hw : c.tsk.imgs.width = c.viddev.width)
    (hh : c.tsk.imgs.height = c.viddev.height) (hret : 0 ≤ (videoV4l2Start D c).1) :
    Negotiated (videoV4l2Start D c).2 ↔
      ∀ x ∈ asked c (videoV4l2Start D c).2, ∀ fmt, Grants fmt x →
        fmt.width = c.viddev.width ∧ fmt.height = c.viddev.height := by
  have hs := videoV4l2Start_started D c c rfl hret
  generalize (videoV4l2Start D c).2 = c' at hs ⊢
  obtain ⟨⟨fd, hdev⟩, himgs, -, new, ht, hg⟩ := hs
  obtain ⟨hiw, hih⟩ := startImages_dimensions c'.viddev c.tsk.imgs
  have hdw : c'.viddev.width = c.viddev.width := by rw [hdev]; rfl
  have hdh : c'.viddev.height = c.viddev.height := by rw [hdev]; rfl
  rw [asked_of ht, Negotiated, himgs, hiw, hih, hw, hh, hdw, hdh]
  constructor
  · rintro ⟨h1, h2, -, -⟩ x hx fmt hgx
    rw [(hg fmt).mp ⟨x, hx, hgx⟩]
    exact ⟨h1.symm, h2.symm⟩
  · intro hall
    obtain ⟨x, hx, hgx⟩ := (hg c'.s.fmt).mpr rfl
    obtain ⟨h1, h2⟩ := hall x hx _ hgx
    exact ⟨h1.symm, h2.symm, h1.symm, h2.symm⟩

/-! ## A camera with one size -/

/-- A plain camera that captures 640 by 480 pixels whatever it is asked for. -/
def oneSize : Driver Unit where
  ioctl
    | .tryFmt fmt, d => (.ok { fmt with width := 640, height := 480 }, d)
    | r, d => (plain ⟨0, 0, ⟨0, 0⟩, fun _ => 0⟩ r, d)
  gettimeofday d := (⟨0, 0⟩, d)
  standards := 0
  formats := 0
  standards_end _ _ _ := ⟨_, rfl⟩
  formats_end _ _ _ := ⟨_, rfl⟩

/-- A camera configured for `w` by `h` pixels, not yet started. -/
def configured (w h : Nat) : Cam Unit where
  tsk := { Context.zero with
    conf := { Context.zero.conf with v4l2Palette := 8 }
    imgs := { Context.zero.imgs with width := w, height := h } }
  viddev := { VideoDev.zero with width := w, height := h, v4lFmt := paletteYuv420p }
  s := SrcV4l2.zero
  v4l2Private := false
  mem := ⟨fun _ => 0, []⟩
  sigmask _ := false
  drv := ()
  trace := []

theorem start_negotiated_oneSize :
    Negotiated (videoV4l2Start oneSize (configured 320 240)).2 ↔
      ∀ x ∈ asked (configured 320 240) (videoV4l2Start oneSize (configured 320 240)).2,
        ∀ fmt, Grants fmt x → fmt.width = 320 ∧ fmt.height = 240 :=
  start_negotiated_iff oneSize rfl rfl (by decide +kernel)

/-- It starts, and the program goes on with 320 by 240 pixels. -/
theorem start_oneSize_not_negotiated :
    0 ≤ (videoV4l2Start oneSize (configured 320 240)).1 ∧
      ¬ Negotiated (videoV4l2Start oneSize (configured 320 240)).2 :=
  ⟨by decide +kernel, by rw [Negotiated]; decide +kernel⟩

end SmartPrince.Common.StartSoundness
