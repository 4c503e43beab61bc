import Mathlib.Data.Finset.Basic
import SmartPrince.Common.VideoSpec
import SmartPrince.Lib.Run

/-! # Who owns the capture buffers

The driver's side is a pool: the buffers it has mapped out, and those given to
it to fill. The program's side is `pframe` and the index left in `buf`. The
two agree as long as `VIDIOC_DQBUF` only fails before the first frame, and not
with `EIO`; the first failure that is not of this kind leaves every buffer
with the driver and `pframe` at a buffer to give back. -/
namespace SmartPrince.Common.BufferQueue
open SmartPrince.Lib.Program SmartPrince.Lib.Memory SmartPrince.Lib.Run
open SmartPrince.Common.CameraState SmartPrince.Common.V4l2 SmartPrince.Common.Video
open SmartPrince.Common.VideoConv SmartPrince.Common.VideoSpec

/-! ## The driver's side -/

structure Pool where
  count : Nat
  queued : Finset Nat
  deriving DecidableEq

/-- Buffer `i` is with the program. -/
def Pool.Free (p : Pool) (i : Nat) : Prop := i < p.count ∧ i ∉ p.queued

instance (p : Pool) (i : Nat) : Decidable (p.Free i) := inferInstanceAs (Decidable (_ ∧ _))

def Pool.give (p : Pool) (i : Nat) : Pool := { p with queued := insert i p.queued }

def Pool.take (p : Pool) (i : Nat) : Pool := { p with queued := p.queued.erase i }

/-- Every buffer is with the driver. -/
def Pool.full (count : Nat) : Pool := ⟨count, Finset.range count⟩

theorem full_not_free (n i : Nat) : ¬ (Pool.full n).Free i :=
  fun ⟨hi, hq⟩ => hq (Finset.mem_range.mpr hi)

theorem take_free {n i : Nat} (hi : i < n) : ((Pool.full n).take i).Free i :=
  ⟨hi, Finset.notMem_erase i _⟩

theorem give_take {n i : Nat} (hi : i < n) : ((Pool.full n).take i).give i = .full n := by
  simp only [Pool.give, Pool.take, Pool.full]
  rw [Finset.insert_erase (Finset.mem_range.mpr hi)]

variable {δ : Type} (D : Driver δ)

/-- A driver that accepts a buffer exactly when it has not got it, and hands
back one that it has or none at all. -/
structure Queueing (pool : δ → Pool) : Prop where
  qbuf_ok : ∀ {i d u}, answer D (.qbuf i) d = .ok u →
    (pool d).Free i ∧ pool (D.ioctl (.qbuf i) d).2 = (pool d).give i
  qbuf_error : ∀ {i d e}, answer D (.qbuf i) d = .error e →
    ¬ (pool d).Free i ∧ pool (D.ioctl (.qbuf i) d).2 = pool d
  dqbuf_ok : ∀ {d} {b : Dequeued}, answer D .dqbuf d = .ok b →
    b.index ∈ (pool d).queued ∧ pool (D.ioctl .dqbuf d).2 = (pool d).take b.index
  dqbuf_error : ∀ {d e}, answer D .dqbuf d = .error e → pool (D.ioctl .dqbuf d).2 = pool d

/-! ## A run of calls -/

structure Args where
  map : Ptr Buf
  width : Nat
  height : Nat

variable (decodeJpegRaw : DecodeJpegRaw)

def call (c : Cam δ) (a : Args) : Cam δ := (v4l2Next D decodeJpegRaw a.map a.width a.height c).2

/-- Every buffer the call gives to the driver was with the program. -/
def GivesFree (pool : δ → Pool) (c : Cam δ) (a : Args) : Prop :=
  ∀ x ∈ asked c (call D decodeJpegRaw c a), ∀ i, x.request = .qbuf i → (pool x.before).Free i

/-- The call asks for a frame. -/
def Reaches (c : Cam δ) (a : Args) : Prop :=
  ∃ x ∈ asked c (call D decodeJpegRaw c a), x.request = .dqbuf

/-- The call asks for a frame, and the driver fails with `e`. -/
def Misses (c : Cam δ) (a : Args) (e : Errno) : Prop :=
  ∃ d, ⟨.dqbuf, d, .error e⟩ ∈ asked c (call D decodeJpegRaw c a)

/-- Where the driver fails, it does so before the first frame and not with `EIO`. -/
def MissesEarly (c : Cam δ) (a : Args) : Prop :=
  ∀ e, Misses D decodeJpegRaw c a e → e ≠ eio ∧ c.s.pframe < 0

/-- The state `v4l2_set_mmap` leaves: nothing held, every buffer queued. -/
structure Streaming (pool : δ → Pool) (c : Cam δ) : Prop where
  pframe : c.s.pframe = -1
  full : pool c.drv = .full c.s.reqCount

/-- The program holds no buffer, or the one that `pframe` and `buf` both name. -/
inductive Owned (pool : δ → Pool) (c : Cam δ) : Prop
  | nothing (hp : c.s.pframe = -1) (hq : pool c.drv = .full c.s.reqCount)
  | frame (hp : c.s.pframe = c.s.buf.index) (hi : c.s.buf.index < c.s.reqCount)
      (hq : pool c.drv = (Pool.full c.s.reqCount).take c.s.buf.index)

/-- The program holds no buffer and believes it does. -/
structure Stuck (pool : δ → Pool) (c : Cam δ) : Prop where
  fmt : c.viddev.v4lFmt = paletteYuv420p
  pframe : 0 ≤ c.s.pframe
  full : pool c.drv = .full c.s.reqCount

theorem call_called (c : Cam δ) (a : Args) :
    ∃ ret, Called D decodeJpegRaw a.map a.width a.height c ret (call D decodeJpegRaw c a) :=
  ⟨_, v4l2Next_called D decodeJpegRaw a.map a.width a.height c⟩

variable {D decodeJpegRaw}

/-- Where the device has another format, nothing is asked and nothing changes. -/
theorem call_fatal {c : Cam δ} (hf : c.viddev.v4lFmt ≠ paletteYuv420p) (a : Args) :
    call D decodeJpegRaw c a = c := by
  obtain ⟨ret, hc⟩ := call_called D decodeJpegRaw c a
  generalize call D decodeJpegRaw c a = c' at hc ⊢
  cases hc with
  | fatal _ => rfl
  | refused hn _ _ => exact absurd hn hf
  | missed hn _ _ => exact absurd hn hf
  | frame hn _ _ => exact absurd hn hf

theorem asked_fatal {c : Cam δ} (hf : c.viddev.v4lFmt ≠ paletteYuv420p) (a : Args) :
    asked c (call D decodeJpegRaw c a) = [] := by
  rw [call_fatal hf]
  exact asked_of rfl

theorem misses_fmt {c : Cam δ} {a : Args} {e : Errno} (h : Misses D decodeJpegRaw c a e) :
    c.viddev.v4lFmt = paletteYuv420p := by
  by_contra hf
  obtain ⟨d, hd⟩ := h
  rw [asked_fatal hf] at hd
  exact nomatch hd

/-! ## Stuck: the next call gives back a buffer it has not got -/

theorem called_gives {map : Ptr Buf} {width height : Nat} {c c' : Cam δ} {ret : Int}
    (h : Called D decodeJpegRaw map width height c ret c')
    (hf : c.viddev.v4lFmt = paletteYuv420p) (hp : 0 ≤ c.s.pframe) :
    ∃ new a, c'.trace = new ++ ⟨.qbuf c.s.buf.index, c.drv, a⟩ :: c.trace := by
  have hrequeued : ∀ {c₁}, Requeued D (blocked c) c₁ →
      ∃ a, c₁.trace = ⟨.qbuf c.s.buf.index, c.drv, a⟩ :: c.trace := by
    intro c₁ hq
    cases hq with
    | nothing hn => exact absurd hn (not_lt.mpr hp)
    | given _ _ => exact ⟨_, rfl⟩
  cases h with
  | fatal hn => exact absurd hf hn
  | refused _ _ _ => exact ⟨[], _, rfl⟩
  | @missed c₁ e _ hq ha =>
    obtain ⟨a, h₁⟩ := hrequeued hq
    exact ⟨[⟨.dqbuf, c₁.drv, answer D .dqbuf c₁.drv⟩], a, congrArg (_ :: ·) h₁⟩
  | @frame c₁ b _ hq ha =>
    obtain ⟨a, h₁⟩ := hrequeued hq
    exact ⟨[⟨.dqbuf, c₁.drv, answer D .dqbuf c₁.drv⟩], a, congrArg (_ :: ·) h₁⟩

theorem Stuck.gives {pool : δ → Pool} {c : Cam δ} (hs : Stuck pool c) (a : Args) :
    ¬ GivesFree D decodeJpegRaw pool c a := by
  intro hg
  obtain ⟨ret, hc⟩ := call_called D decodeJpegRaw c a
  obtain ⟨new, ans, ht⟩ := called_gives hc hs.fmt hs.pframe
  have hmem : (⟨.qbuf c.s.buf.index, c.drv, ans⟩ : Exchange δ) ∈
      asked c (call D decodeJpegRaw c a) := by
    rw [asked_of (ht.trans (List.append_cons new _ _))]
    simp
  have hfree := hg _ hmem _ rfl
  rw [hs.full] at hfree
  exact full_not_free _ _ hfree

theorem nextPframe_nonneg {s : SrcV4l2} (h : -1 ≤ s.pframe) : 0 ≤ (nextPframe s).pframe := by
  unfold nextPframe
  dsimp only
  split <;> omega

theorem Owned.pframe_le {pool : δ → Pool} {c : Cam δ} (ho : Owned pool c) : -1 ≤ c.s.pframe := by
  cases ho with
  | nothing hp _ => omega
  | frame hp _ _ => omega

/-- `EIO` leaves `pframe` at a buffer, and so does any error once there was a frame. -/
theorem Owned.stuck {pool : δ → Pool} {c c' : Cam δ} {e : Errno} (ho : Owned pool c)
    (hf : c'.viddev.v4lFmt = paletteYuv420p) (hs : c'.s = missed e (cleared c).s)
    (hq : pool c'.drv = .full c.s.reqCount) (he : ¬ (e ≠ eio ∧ c.s.pframe < 0)) :
    Stuck pool c' := by
  by_cases heio : e = eio
  · rw [missed, if_pos heio] at hs
    exact ⟨hf, hs ▸ nextPframe_nonneg ho.pframe_le, by rw [hs]; exact hq⟩
  · rw [missed, if_neg heio] at hs
    have hp : 0 ≤ c.s.pframe := not_lt.mp fun hp => he ⟨heio, hp⟩
    exact ⟨hf, by rw [hs]; exact hp, by rw [hs]; exact hq⟩

/-! ## One call of a program that owns what it believes to own -/

section Step
variable {pool : δ → Pool} (hD : Queueing D pool)
include hD

/-- It gives its frame back, and every buffer is with the driver. -/
theorem Owned.requeued {c c₁ : Cam δ} (ho : Owned pool c) (hq : Requeued D (blocked c) c₁) :
    pool c₁.drv = .full c.s.reqCount ∧ c₁.s = c.s ∧ c₁.viddev = c.viddev ∧
      ∃ new, c₁.trace = new ++ c.trace ∧
        ∀ x ∈ new, x.request = .qbuf c.s.buf.index ∧ (pool x.before).Free c.s.buf.index := by
  cases hq with
  | nothing hp =>
    refine ⟨?_, rfl, rfl, [], rfl, by simp⟩
    cases ho with
    | nothing _ hq => exact hq
    | frame hb _ _ => exact absurd hp (by simp only [blocked]; omega)
  | @given u hp ha =>
    cases ho with
    | nothing hb _ => exact absurd hp (by simp only [blocked]; omega)
    | frame _ hi hq =>
      obtain ⟨hf, hg⟩ := hD.qbuf_ok ha
      refine ⟨?_, rfl, rfl, [_], rfl, ?_⟩
      · exact hg.trans ((congrArg (·.give c.s.buf.index) hq).trans (give_take hi))
      · intro x hx
        rw [List.mem_singleton.mp hx]
        exact ⟨rfl, hf⟩

/-- It is never refused the frame it gives back. -/
theorem Owned.not_refused {c : Cam δ} (ho : Owned pool c) (hp : 0 ≤ c.s.pframe) {e : Errno} :
    answer D (.qbuf c.s.buf.index) c.drv ≠ .error e := by
  intro ha
  cases ho with
  | nothing hb _ => omega
  | frame _ hi hq => exact (hD.qbuf_error ha).1 (hq ▸ take_free hi)

/-- What the call asks for, and what it makes of the answer. -/
theorem Owned.outcome (decodeJpegRaw : DecodeJpegRaw) {c : Cam δ} (ho : Owned pool c)
    (hf : c.viddev.v4lFmt = paletteYuv420p) (a : Args) : ∃ d new,
      asked c (call D decodeJpegRaw c a) = ⟨.dqbuf, d, answer D .dqbuf d⟩ :: new ∧
      (∀ x ∈ new, x.request = .qbuf c.s.buf.index ∧ (pool x.before).Free c.s.buf.index) ∧
      (call D decodeJpegRaw c a).viddev = c.viddev ∧
      ((∃ e, answer D .dqbuf d = .error e ∧
        (call D decodeJpegRaw c a).s = missed e (cleared c).s ∧
        pool (call D decodeJpegRaw c a).drv = .full c.s.reqCount) ∨
      ∃ b : Dequeued, answer D .dqbuf d = .ok b ∧ b.index < c.s.reqCount ∧
        (call D decodeJpegRaw c a).s = holdFrame b (cleared c).s ∧
        pool (call D decodeJpegRaw c a).drv = (Pool.full c.s.reqCount).take b.index) := by
  obtain ⟨ret, hc⟩ := call_called D decodeJpegRaw c a
  generalize call D decodeJpegRaw c a = c' at hc ⊢
  cases hc with
  | fatal hn => exact absurd hf hn
  | refused _ hp ha => exact absurd ha (ho.not_refused hD hp)
  | @missed c₁ e _ hq ha =>
    obtain ⟨hfull, hs, hv, new, ht, hnew⟩ := ho.requeued hD hq
    refine ⟨c₁.drv, new, asked_of (congrArg (_ :: ·) ht), hnew, hv, .inl ⟨e, ha, ?_, ?_⟩⟩
    · simp only [cleared, hs]
    · exact (hD.dqbuf_error ha).trans hfull
  | @frame c₁ b _ hq ha =>
    obtain ⟨hfull, hs, hv, new, ht, hnew⟩ := ho.requeued hD hq
    obtain ⟨hi, htaken⟩ := hD.dqbuf_ok ha
    rw [hfull] at hi htaken
    refine ⟨c₁.drv, new, asked_of (congrArg (_ :: ·) ht), hnew, hv,
      .inr ⟨b, ha, Finset.mem_range.mp hi, ?_, htaken⟩⟩
    simp only [convertFrame, held, after_s, cleared, hs]

section Asked
variable {c : Cam δ} {a : Args} {d : δ} {i : Nat} {new : List (Exchange δ)}
  (hasked : asked c (call D decodeJpegRaw c a) = ⟨.dqbuf, d, answer D .dqbuf d⟩ :: new)
  (hnew : ∀ x ∈ new, x.request = .qbuf i ∧ (pool x.before).Free i)
include hasked hnew

omit hD in
theorem misses_iff (e : Errno) :
    Misses D decodeJpegRaw c a e ↔ answer D .dqbuf d = .error e := by
  rw [Misses, hasked]
  constructor
  · rintro ⟨d', hx⟩
    rcases List.mem_cons.mp hx with hx | hx
    · injection hx with _ _ ha
      exact ha.symm
    · exact nomatch (hnew _ hx).1
  · intro he
    exact ⟨d, by rw [he]; exact List.mem_cons_self⟩

omit hD in
theorem givesFree_of_asked : GivesFree D decodeJpegRaw pool c a := by
  intro x hx j hj
  rw [hasked] at hx
  rcases List.mem_cons.mp hx with rfl | hx
  · exact nomatch hj
  · obtain ⟨hr, hfree⟩ := hnew x hx
    rw [hr] at hj
    injection hj with hj
    exact hj ▸ hfree

end Asked

/-- It gives free buffers only, and after it owns what it believes to own
unless it is stuck. -/
theorem Owned.step (decodeJpegRaw : DecodeJpegRaw) {c : Cam δ} (ho : Owned pool c)
    (hf : c.viddev.v4lFmt = paletteYuv420p) (a : Args) :
    GivesFree D decodeJpegRaw pool c a ∧ Reaches D decodeJpegRaw c a ∧
      (MissesEarly D decodeJpegRaw c a → Owned pool (call D decodeJpegRaw c a)) ∧
      (¬ MissesEarly D decodeJpegRaw c a → Stuck pool (call D decodeJpegRaw c a)) := by
  obtain ⟨d, new, hasked, hnew, hv, hout⟩ := ho.outcome hD decodeJpegRaw hf a
  have hmisses := misses_iff hasked hnew
  refine ⟨givesFree_of_asked hasked hnew, ⟨_, hasked ▸ List.mem_cons_self, rfl⟩, ?_⟩
  rcases hout with ⟨e, he, hs, hq⟩ | ⟨b, hb, hi, hs, hq⟩
  · constructor
    · intro hearly
      obtain ⟨hne, hp⟩ := hearly e ((hmisses e).mpr he)
      rw [missed, if_neg hne] at hs
      cases ho with
      | nothing hn _ => exact .nothing (by rw [hs]; exact hn) (by rw [hs]; exact hq)
      | frame hn _ _ => omega
    · intro hlate
      refine ho.stuck (hv ▸ hf) hs hq fun hne => hlate fun e' he' => ?_
      rw [hmisses, he] at he'
      injection he' with he'
      exact he' ▸ hne
  · have howned : Owned pool (call D decodeJpegRaw c a) :=
      .frame (by rw [hs]; rfl) (by rw [hs]; exact hi) (by rw [hs]; exact hq)
    refine ⟨fun _ => howned, fun hlate => absurd (fun e he => ?_) hlate⟩
    rw [hmisses, hb] at he
    cases he

/-! ## Runs of calls -/

theorem runs_iff (decodeJpegRaw : DecodeJpegRaw) {c : Cam δ} (ho : Owned pool c)
    (args : Nat → Args) :
    ((∀ n, MissesEarly D decodeJpegRaw (stream (call D decodeJpegRaw) c args n) (args n)) ↔
      ∀ n, GivesFree D decodeJpegRaw pool (stream (call D decodeJpegRaw) c args n) (args n)) ∧
    ((∀ n, MissesEarly D decodeJpegRaw (stream (call D decodeJpegRaw) c args n) (args n)) →
      ∀ n, Owned pool (stream (call D decodeJpegRaw) c args n)) := by
  refine stream_iff ho ?_ ?_
  · intro c a ho hearly
    by_cases hf : c.viddev.v4lFmt = paletteYuv420p
    · obtain ⟨hg, -, hnext, -⟩ := ho.step hD decodeJpegRaw hf a
      exact ⟨hnext hearly, hg⟩
    · refine ⟨by rwa [call_fatal hf], fun x hx => ?_⟩
      rw [asked_fatal hf] at hx
      exact nomatch hx
  · intro c a b ho hlate
    have hf : c.viddev.v4lFmt = paletteYuv420p := by
      by_contra hf
      exact hlate fun e he => absurd (misses_fmt he) hf
    exact ((ho.step hD decodeJpegRaw hf a).2.2.2 hlate).gives b

/-- **The code keeps to the driver's ownership of the buffers exactly when
`VIDIOC_DQBUF` fails only before the first frame, and never with `EIO`.** -/
theorem queue_discipline_iff {c : Cam δ} (hc : Streaming pool c) (args : Nat → Args) :
    ((∀ n, GivesFree D decodeJpegRaw pool (stream (call D decodeJpegRaw) c args n) (args n)) ∧
      ∀ n e, Misses D decodeJpegRaw (stream (call D decodeJpegRaw) c args n) (args n) e →
        ∃ m > n, Reaches D decodeJpegRaw (stream (call D decodeJpegRaw) c args m) (args m)) ↔
    ∀ n, MissesEarly D decodeJpegRaw (stream (call D decodeJpegRaw) c args n) (args n) := by
  obtain ⟨hiff, howned⟩ := runs_iff hD decodeJpegRaw (.nothing hc.pframe hc.full) args
  refine ⟨fun ⟨hg, _⟩ => hiff.mpr hg, fun hearly => ⟨hiff.mp hearly, fun n e he => ?_⟩⟩
  have hf := misses_fmt he
  have hnext : (stream (call D decodeJpegRaw) c args (n + 1)).viddev.v4lFmt = paletteYuv420p := by
    obtain ⟨_, _, _, _, hv, _⟩ := (howned hearly n).outcome hD decodeJpegRaw hf (args n)
    exact (congrArg VideoDev.v4lFmt hv).trans hf
  exact ⟨n + 1, Nat.lt_succ_self n, ((howned hearly (n + 1)).step hD decodeJpegRaw hnext _).2.1⟩

end Step

/-! ## Start-up -/

/-- `VIDIOC_REQBUFS` leaves the driver with new buffers, none of them queued,
and what else `v4l2_set_mmap` asks changes nothing there. -/
structure Allocating (D : Driver δ) (pool : δ → Pool) : Prop where
  reqbufs : ∀ {n d} {count : Nat}, answer D (.reqbufs n) d = .ok count →
    pool (D.ioctl (.reqbufs n) d).2 = ⟨count, ∅⟩
  querybuf : ∀ {i d}, pool (D.ioctl (.querybuf i) d).2 = pool d
  mmap : ∀ {n d}, pool (D.ioctl (.mmap n) d).2 = pool d
  streamon : ∀ {d}, pool (D.ioctl .streamon d).2 = pool d

section Start
variable {pool : δ → Pool} (hD : Queueing D pool) (hA : Allocating D pool)

/-- The buffers below `b` are queued, and nothing is held. -/
structure Queued (pool : δ → Pool) (count b : Nat) (c : Cam δ) : Prop where
  pframe : c.s.pframe = -1
  reqCount : c.s.reqCount = count
  pool : pool c.drv = ⟨count, Finset.range b⟩

include hA in
theorem mapBuffers_queued {count q : Nat} (n b : Nat) :
    Triple (Queued pool count q) (mapBuffers D n b) fun _ => Queued pool count q := by
  induction n generalizing b with
  | zero => exact triple_pure fun _ h => h
  | succ n ih =>
    refine triple_keep (fun c h => ⟨h.pframe, h.reqCount, hA.querybuf.trans h.pool⟩)
      fun ans => ?_
    cases ans with
    | error e => exact triple_pure fun _ h => h
    | ok length =>
      refine triple_keep (triple_modify fun c h => ⟨h.pframe, h.reqCount, h.pool⟩) fun _ => ?_
      refine triple_keep (fun c h => ⟨h.pframe, h.reqCount, hA.mmap.trans h.pool⟩) fun ans => ?_
      cases ans with
      | error e => exact triple_pure fun _ h => h
      | ok u => exact ih (b + 1)

include hD in
theorem queueBuffers_queued {count : Nat} (n b : Nat) :
    Triple (Queued pool count b) (queueBuffers D n b)
      fun ret c => ret = 0 → Queued pool count (b + n) c := by
  induction n generalizing b with
  | zero => exact triple_pure fun _ h _ => h
  | succ n ih =>
    refine triple_keep (triple_modify fun c h => ⟨h.pframe, h.reqCount, h.pool⟩) fun _ => ?_
    refine triple_bind (fun ans c => ∀ u, ans = .ok u → Queued pool count (b + 1) c)
      (fun c h u ha => ⟨h.pframe, h.reqCount, ?_⟩) fun ans => ?_
    · have hpool := (hD.qbuf_ok ha).2
      rwa [h.pool, Pool.give, ← Finset.range_add_one] at hpool
    · cases ans with
      | error e => exact triple_pure fun _ _ hret => nomatch hret
      | ok u =>
        rw [show b + (n + 1) = b + 1 + n by omega]
        exact triple_conseq (ih (b + 1)) fun c h => h u rfl

include hD hA in
/-- **`v4l2_set_mmap` leaves every buffer queued.** -/
theorem v4l2SetMmap_streaming :
    Triple (fun c => c.s.pframe = -1) (v4l2SetMmap D)
      fun ret c => ret = 0 → Streaming pool c := by
  refine triple_get fun _ => triple_ite (fun _ => triple_pure fun _ _ hret => nomatch hret)
    fun _ => ?_
  refine triple_bind (fun _ c => c.s.pframe = -1) (triple_modify fun c h => h.1) fun _ => ?_
  refine triple_bind (fun (ans : Except Errno Nat) c => c.s.pframe = -1 ∧
      ∀ count, ans = .ok count → pool c.drv = ⟨count, ∅⟩)
    (fun c h => ⟨h, fun count ha => hA.reqbufs ha⟩) fun ans => ?_
  cases ans with
  | error e => exact triple_pure fun _ _ hret => nomatch hret
  | ok count =>
    refine triple_bind (fun _ => Queued pool count 0)
      (triple_modify fun c h => ⟨h.1, rfl, h.2 count rfl⟩) fun _ => ?_
    refine triple_ite (fun _ => triple_pure fun _ _ hret => nomatch hret) fun _ => ?_
    refine triple_keep (triple_modify fun c h => ⟨h.pframe, h.reqCount, h.pool⟩) fun _ => ?_
    refine triple_keep (mapBuffers_queued hA count 0) fun ret => ?_
    refine triple_ite (fun _ => triple_pure fun _ _ hret => nomatch hret) fun _ => ?_
    refine triple_bind _ (queueBuffers_queued hD count 0) fun ret => ?_
    refine triple_ite (fun _ => triple_pure fun _ _ hret => nomatch hret) fun hret => ?_
    refine triple_bind (fun _ => Queued pool count (0 + count)) (fun c h => ?_) fun ans => ?_
    · have hq := h (not_not.mp hret)
      exact ⟨hq.pframe, hq.reqCount, hA.streamon.trans hq.pool⟩
    · cases ans with
      | error e => exact triple_pure fun _ _ hret => nomatch hret
      | ok u =>
        refine triple_pure fun c hq _ => ⟨hq.pframe, ?_⟩
        rw [hq.pool, hq.reqCount, Nat.zero_add]
        rfl

end Start

/-! ## A camera without a signal -/

/-- A plain camera that answers every `VIDIOC_DQBUF` with `EIO`. -/
def noSignal : Driver Pool where
  ioctl
    | .reqbufs n, _ => (.ok (n : Nat), ⟨n, ∅⟩)
    | .qbuf i, p => if p.Free i then (.ok (), p.give i) else (.error 22, p)
    | .dqbuf, p => (.error eio, p)
    | r, p => (plain ⟨0, 0, ⟨0, 0⟩, fun _ => 0⟩ r, p)
  gettimeofday p := (⟨0, 0⟩, p)
  standards := 0
  formats := 0
  standards_end _ _ _ := ⟨_, rfl⟩
  formats_end _ _ _ := ⟨_, rfl⟩

theorem noSignal_qbuf (p : Pool) (i : Nat) :
    noSignal.ioctl (.qbuf i) p = if p.Free i then (.ok (), p.give i) else (.error 22, p) := rfl

theorem noSignal_queueing : Queueing noSignal id where
  qbuf_ok := by
    intro i p u ha
    rw [answer, noSignal_qbuf] at ha
    rw [noSignal_qbuf]
    by_cases hf : p.Free i
    · rw [if_pos hf]
      exact ⟨hf, rfl⟩
    · rw [if_neg hf] at ha
      cases ha
  qbuf_error := by
    intro i p e ha
    rw [answer, noSignal_qbuf] at ha
    rw [noSignal_qbuf]
    by_cases hf : p.Free i
    · rw [if_pos hf] at ha
      cases ha
    · rw [if_neg hf]
      exact ⟨hf, rfl⟩
  dqbuf_ok := by
    intro p b ha
    cases ha
  dqbuf_error _ := rfl

/-- Four buffers queued and the stream on. -/
def streaming : Cam Pool where
  tsk := Context.zero
  viddev := { VideoDev.zero with v4lFmt := paletteYuv420p }
  s := { SrcV4l2.zero with pframe := -1, reqCount := mmapBuffers }
  v4l2Private := true
  mem := ⟨fun _ => 0, []⟩
  sigmask _ := false
  drv := .full mmapBuffers
  trace := []

theorem streaming_start : Streaming id streaming := ⟨rfl, rfl⟩

def noJpeg : DecodeJpegRaw := fun _ _ _ _ => ⟨0, fun _ _ => none⟩

theorem queue_discipline_noSignal :
    ((∀ n, GivesFree noSignal noJpeg id
        (stream (call noSignal noJpeg) streaming (fun _ => ⟨imageVirgin, 16, 16⟩) n)
        ⟨imageVirgin, 16, 16⟩) ∧
      ∀ n e, Misses noSignal noJpeg
          (stream (call noSignal noJpeg) streaming (fun _ => ⟨imageVirgin, 16, 16⟩) n)
          ⟨imageVirgin, 16, 16⟩ e →
        ∃ m > n, Reaches noSignal noJpeg
          (stream (call noSignal noJpeg) streaming (fun _ => ⟨imageVirgin, 16, 16⟩) m)
          ⟨imageVirgin, 16, 16⟩) ↔
    ∀ n, MissesEarly noSignal noJpeg
      (stream (call noSignal noJpeg) streaming (fun _ => ⟨imageVirgin, 16, 16⟩) n)
      ⟨imageVirgin, 16, 16⟩ :=
  queue_discipline_iff noSignal_queueing streaming_start fun _ => ⟨imageVirgin, 16, 16⟩

/-- The second call gives buffer 0 to a driver that never let go of it. -/
theorem no_signal_gives_queued :
    ¬ ∀ (D : Driver Pool) (dec : DecodeJpegRaw) (pool : Pool → Pool), Queueing D pool →
      ∀ c, Streaming pool c → ∀ args : Nat → Args,
        (∀ n, GivesFree D dec pool (stream (call D dec) c args n) (args n)) ∧
        ∀ n e, Misses D dec (stream (call D dec) c args n) (args n) e →
          ∃ m > n, Reaches D dec (stream (call D dec) c args m) (args m) := by
  intro h
  have hg := (h noSignal noJpeg id noSignal_queueing streaming streaming_start
    fun _ => ⟨imageVirgin, 16, 16⟩).1 1
  exact Stuck.gives ⟨rfl, by decide, rfl⟩ _ hg

end SmartPrince.Common.BufferQueue
