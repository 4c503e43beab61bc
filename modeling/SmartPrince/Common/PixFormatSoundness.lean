import Mathlib.Data.List.Induction
import SmartPrince.Common.VideoSpec

/-! # Which pixel format is asked for

Where the configured palette does not work, the driver's formats are
enumerated and the most preferred of them is asked for. The enumeration counts
in 16 bits: from the 32769th format on it asks for indices near the end of
`__u32`. -/
namespace SmartPrince.Common.PixFormatSoundness
open SmartPrince.Lib.Program
open SmartPrince.Common.V4l2 SmartPrince.Common.Video SmartPrince.Common.VideoSpec

variable {δ : Type}

/-! ## The driver's formats -/

/-- The driver enumerates the formats of `l`, and its end, by their `__u32` index. -/
structure Enumerates (D : Driver δ) (l : List PixFmt) : Prop where
  listed : ∀ i (f : PixFmt), l[i]? = some f → ∀ d, (D.ioctl (.enumFmt i) d).1 = .ok f
  ended : ∀ i, l.length ≤ i → ∀ d, ∃ e, (D.ioctl (.enumFmt i) d).1 = .error e
  indexed : l.length < 2 ^ 32

/-- Of the formats of `l`, the one with the greatest index in `supported_formats`. -/
def Best (l : List PixFmt) (g : PixFmt) : Prop :=
  ∃ i : Nat, supportedFormats[i]? = some g ∧ g ∈ l ∧
    ∀ (j : Nat) f, supportedFormats[j]? = some f → f ∈ l → j ≤ i

/-- The formats at the indices the 16-bit counter takes. -/
def reached (l : List PixFmt) : List PixFmt := l.take (2 ^ 15) ++ l.drop (2 ^ 32 - 2 ^ 15)

def formatAsked : Request → Option PixFmt
  | .tryFmt fmt => some fmt.pixelformat
  | .sFmt fmt => some fmt.pixelformat
  | _ => none

/-- The formats asked for between two states. -/
def formatsAsked (c c' : Cam δ) : List PixFmt := (asked c c').filterMap (formatAsked ·.request)

section Request
variable (D : Driver δ) (width height : Nat) (c : Cam δ)

/-- The configured palette, tried first. -/
def shortcut : (Int × Nat × Nat) × Cam δ :=
  v4l2DoSetPixFormat D (supportedFormats.getD c.tsk.conf.v4l2Palette (.other 0)) width height c

/-- The camera when the formats were enumerated. -/
def enumerated : Cam δ := (enumFormats D (D.formats + 1) 0 (-1) (shortcut D width height c).2).2

/-- The request for `g` that follows the enumeration fails. -/
def Refused (g : PixFmt) : Prop :=
  (v4l2DoSetPixFormat D g (shortcut D width height c).1.2.1 (shortcut D width height c).1.2.2
    (enumerated D width height c)).1.1 = -1

/-- After the shortcut the best format of `l` is asked for, and no other; the
result is -1 where there is none or where it is refused. -/
structure AsksForBest (l : List PixFmt) : Prop where
  asks : ∀ g, g ∈ formatsAsked (shortcut D width height c).2
    (v4l2SetPixFormat D width height c).2 ↔ Best l g
  fails : (v4l2SetPixFormat D width height c).1.1 = -1 ↔
    (∀ f ∈ l, f ∉ supportedFormats) ∨ ∃ g, Best l g ∧ Refused D width height c g

end Request

/-! ## The best of a list -/

/-- The index of a format in `supported_formats`, -1 where it is not there. -/
def rank : PixFmt → Int
  | .sn9c10x => 0
  | .sbggr8 => 1
  | .mjpeg => 2
  | .jpeg => 3
  | .rgb24 => 4
  | .uyvy => 5
  | .yuyv => 6
  | .yuv422p => 7
  | .yuv420 => 8
  | .other _ => -1

theorem supported_rank {i : Nat} {f : PixFmt} :
    supportedFormats[i]? = some f ↔ rank f = i := by
  constructor
  · intro h
    obtain ⟨hi, rfl⟩ := List.getElem?_eq_some_iff.mp h
    have hcases : ∀ i : Fin 9, rank (supportedFormats.get i) = i := by decide
    exact hcases ⟨i, hi⟩
  · intro h
    cases f with
    | other code => simp [rank] at h
    | _ =>
      simp only [rank] at h
      obtain rfl : i = _ := (Int.ofNat.inj h).symm
      rfl

/-- The greatest rank in a list, -1 where it has no supported format. -/
def topRank (l : List PixFmt) : Int := l.foldl (fun m f => max m (rank f)) (-1)

theorem topRank_append (l : List PixFmt) (f : PixFmt) :
    topRank (l ++ [f]) = max (topRank l) (rank f) := by
  unfold topRank
  rw [List.foldl_append]
  rfl

/-- The inner scan raises the index to the rank of the format. -/
theorem betterIndex_eq (f : PixFmt) {m : Int} (hm : -1 ≤ m) :
    betterIndex f supportedFormats 0 m = max m (rank f) := by
  cases f <;> simp [betterIndex, supportedFormats, rank] <;> omega

theorem topRank_spec (l : List PixFmt) :
    (∀ f ∈ l, rank f ≤ topRank l) ∧ (topRank l = -1 ∨ ∃ f ∈ l, rank f = topRank l) := by
  induction l using List.reverseRecOn with
  | nil => exact ⟨(fun f hf => nomatch hf), .inl rfl⟩
  | append_singleton l g ih =>
    obtain ⟨hle, hmem⟩ := ih
    rw [topRank_append]
    refine ⟨fun f hf => ?_, ?_⟩
    · rw [List.mem_append, List.mem_singleton] at hf
      rcases hf with hf | rfl
      · exact (hle f hf).trans (le_max_left _ _)
      · exact le_max_right _ _
    · by_cases hg : rank g ≤ topRank l
      · rw [max_eq_left hg]
        rcases hmem with h | ⟨f, hf, h⟩
        · exact .inl h
        · exact .inr ⟨f, List.mem_append_left _ hf, h⟩
      · rw [max_eq_right (by omega)]
        exact .inr ⟨g, by simp, rfl⟩

theorem best_iff {l : List PixFmt} {g : PixFmt} :
    Best l g ↔ g ∈ l ∧ 0 ≤ rank g ∧ rank g = topRank l := by
  obtain ⟨hle, hmem⟩ := topRank_spec l
  constructor
  · rintro ⟨i, hi, hg, hmax⟩
    rw [supported_rank] at hi
    refine ⟨hg, by omega, ?_⟩
    have hgt := hle g hg
    obtain h | ⟨f, hf, h⟩ := hmem
    · omega
    · have hj := hmax (rank f).toNat f (supported_rank.mpr (by omega)) hf
      omega
  · rintro ⟨hg, h0, htop⟩
    refine ⟨(rank g).toNat, supported_rank.mpr (by omega), hg, fun j f hj hf => ?_⟩
    have hle := hle f hf
    rw [supported_rank] at hj
    omega

theorem best_unique {l : List PixFmt} {f g : PixFmt} (hf : Best l f) (hg : Best l g) : f = g := by
  obtain ⟨i, hi, hfl, hfmax⟩ := hf
  obtain ⟨j, hj, hgl, hgmax⟩ := hg
  obtain rfl : i = j := Nat.le_antisymm (hgmax i f hi hfl) (hfmax j g hj hgl)
  exact Option.some.inj (hi.symm.trans hj)

theorem none_supported_iff {l : List PixFmt} :
    (∀ f ∈ l, f ∉ supportedFormats) ↔ topRank l < 0 := by
  obtain ⟨hle, hmem⟩ := topRank_spec l
  constructor
  · intro h
    obtain htop | ⟨f, hf, htop⟩ := hmem
    · omega
    · by_contra hneg
      have hs : supportedFormats[(rank f).toNat]? = some f := supported_rank.mpr (by omega)
      exact h f hf (List.mem_of_getElem? hs)
  · intro hneg f hf hs
    obtain ⟨i, hi⟩ := List.mem_iff_getElem?.mp hs
    rw [supported_rank] at hi
    have := hle f hf
    omega

theorem best_exists {l : List PixFmt} (h : 0 ≤ topRank l) :
    Best l (supportedFormats.getD (topRank l).toNat (.other 0)) := by
  obtain htop | ⟨f, hf, htop⟩ := (topRank_spec l).2
  · omega
  · have hs : supportedFormats[(topRank l).toNat]? = some f := supported_rank.mpr (by omega)
    rw [List.getD_eq_getElem?_getD, hs, Option.getD_some]
    exact best_iff.mpr ⟨hf, by omega, htop⟩

theorem best_exists_iff {l : List PixFmt} : (∃ g, Best l g) ↔ 0 ≤ topRank l := by
  refine ⟨?_, fun h => ⟨_, best_exists h⟩⟩
  rintro ⟨g, hg⟩
  obtain ⟨hmem, h0, -⟩ := best_iff.mp hg
  exact h0.trans ((topRank_spec l).1 g hmem)

/-! ## The enumeration -/

theorem reached_length {l : List PixFmt} (hl : l.length < 2 ^ 32) :
    (reached l).length ≤ l.length ∧ (reached l).length < 2 ^ 16 := by
  unfold reached
  rw [List.length_append, List.length_take, List.length_drop]
  omega

/-- The counter's indices are those of `reached`, up to the one where the driver ends it. -/
theorem reached_get {l : List PixFmt} (hl : l.length < 2 ^ 32) {k : Nat}
    (hk : k ≤ (reached l).length) : (reached l)[k]? = l[palIndex k]? := by
  have hlen := (reached_length hl).2
  unfold reached at hk hlen ⊢
  rw [List.length_append, List.length_take, List.length_drop] at hk hlen
  unfold palIndex
  rw [Nat.mod_eq_of_lt (by omega : k < 2 ^ 16)]
  rw [List.getElem?_append, List.length_take]
  split
  · rw [List.getElem?_take_of_lt (by omega), if_pos (by omega)]
  · rw [List.getElem?_drop]
    by_cases hshort : l.length < 2 ^ 15
    · rw [if_pos (by omega), List.getElem?_eq_none (by omega), List.getElem?_eq_none (by omega)]
    · rw [if_neg (by omega)]
      congr 1
      omega

section Enumeration
variable {D : Driver δ} {l : List PixFmt} (h : Enumerates D l)
include h

/-- The loop over what is left of the formats reached. -/
theorem enumFormats_rest (rest done : List PixFmt) (hr : reached l = done ++ rest) (fuel : Nat)
    (hfuel : rest.length < fuel) (m : Int) (hm : -1 ≤ m) (c : Cam δ) :
    (enumFormats D fuel done.length m c).1 = rest.foldl (fun m f => max m (rank f)) m := by
  induction rest generalizing done fuel m c with
  | nil =>
    obtain ⟨fuel, rfl⟩ := Nat.exists_eq_add_one_of_ne_zero (Nat.ne_of_gt hfuel)
    rw [List.append_nil] at hr
    have hend : l.length ≤ palIndex done.length := by
      rw [← List.getElem?_eq_none_iff, ← reached_get h.indexed (by rw [hr]), hr]
      exact List.getElem?_eq_none (Nat.le_refl _)
    obtain ⟨e, he⟩ := h.ended _ hend c.drv
    have ha : answer D (.enumFmt (palIndex done.length)) c.drv = .error e := he
    rw [enumFormats, xioctl_bind, ha]
    rfl
  | cons f rest ih =>
    obtain ⟨fuel, rfl⟩ := Nat.exists_eq_add_one_of_ne_zero (Nat.ne_of_gt (Nat.zero_lt_of_lt hfuel))
    have hk : done.length ≤ (reached l).length := by
      rw [hr, List.length_append]
      omega
    have hlisted : l[palIndex done.length]? = some f := by
      rw [← reached_get h.indexed hk, hr]
      simp
    have ha : answer D (.enumFmt (palIndex done.length)) c.drv = .ok f :=
      h.listed _ _ hlisted c.drv
    rw [enumFormats, xioctl_bind, ha]
    have hnext := ih (done ++ [f]) (by simp [hr]) fuel (by simpa using hfuel)
      (betterIndex f supportedFormats 0 m) (by rw [betterIndex_eq f hm]; omega)
      (after D (.enumFmt (palIndex done.length)) c)
    rw [List.length_append] at hnext
    rw [List.foldl_cons, ← betterIndex_eq f hm]
    exact hnext

theorem enumFormats_topRank (c : Cam δ) :
    (enumFormats D (D.formats + 1) 0 (-1) c).1 = topRank (reached l) := by
  have hformats : l.length ≤ D.formats := by
    by_contra hlt
    rw [not_le] at hlt
    have hok := h.listed D.formats (l.get ⟨D.formats, hlt⟩) (List.getElem?_eq_getElem hlt) c.drv
    obtain ⟨e, he⟩ := D.formats_end D.formats c.drv (Nat.le_refl _)
    rw [hok] at he
    cases he
  have hlen := (reached_length h.indexed).1
  exact enumFormats_rest h (reached l) [] rfl (D.formats + 1) (by omega) (-1) (by omega) c

end Enumeration

/-! ## The requests -/

section Requests
variable {D : Driver δ} {c₀ c : Cam δ} {fs : List PixFmt}

/-- Since `c₀` the formats `fs` were asked for, the newest first. -/
def Since (c₀ : Cam δ) (fs : List PixFmt) (c : Cam δ) : Prop :=
  ∃ new, c.trace = new ++ c₀.trace ∧ new.filterMap (formatAsked ·.request) = fs

theorem Since.formatsAsked (h : Since c₀ fs c) : formatsAsked c₀ c = fs := by
  obtain ⟨new, ht, hfs⟩ := h
  rw [PixFormatSoundness.formatsAsked, asked_of ht, hfs]

theorem since_refl (c : Cam δ) : Since c [] c := ⟨[], rfl, rfl⟩

theorem Since.trans {gs : List PixFmt} {c' : Cam δ} (h : Since c₀ fs c) (h' : Since c gs c') :
    Since c₀ (gs ++ fs) c' := by
  obtain ⟨new, ht, hfs⟩ := h
  obtain ⟨new', ht', hgs⟩ := h'
  refine ⟨new' ++ new, ?_, ?_⟩
  · rw [ht', ht, List.append_assoc]
  · rw [List.filterMap_append, hgs, hfs]

theorem since_ask (r : Request) (c : Cam δ) : Since c (formatAsked r).toList (after D r c) := by
  refine ⟨[⟨r, c.drv, answer D r c.drv⟩], rfl, ?_⟩
  cases h : formatAsked r <;> simp [h]

theorem Since.ask (h : Since c₀ fs c) (r : Request) :
    Since c₀ ((formatAsked r).toList ++ fs) (after D r c) := h.trans (since_ask r c)

theorem enumFormats_since (fuel k : Nat) (m : Int) (c : Cam δ) :
    Since c [] (enumFormats D fuel k m c).2 := by
  induction fuel generalizing k m c with
  | zero => exact since_refl c
  | succ fuel ih =>
    have hask : Since c [] (after D (.enumFmt (palIndex k)) c) := since_ask _ c
    rw [enumFormats, xioctl_bind]
    cases answer D (.enumFmt (palIndex k)) c.drv with
    | error e => exact hask
    | ok f => exact hask.trans (ih _ _ _)

/-- A format is asked for by `VIDIOC_TRY_FMT` and, where that agrees, once more
by `VIDIOC_S_FMT`; no other format is. -/
theorem doSet_since (g : PixFmt) (width height : Nat) :
    Triple (Since c₀ []) (v4l2DoSetPixFormat D g width height) fun p c =>
      (p.1 = 0 ∨ p.1 = -1) ∧ (Since c₀ [g] c ∨ Since c₀ [g, g] c) := by
  refine triple_keep (triple_modify fun c h => h) fun _ => ?_
  refine triple_bind (fun _ => Since c₀ [g]) (fun c h => h.ask (.tryFmt _)) fun ans => ?_
  cases ans with
  | error e => exact triple_pure fun c h => ⟨.inr rfl, .inl h⟩
  | ok fmt =>
    refine triple_keep (triple_modify fun c h => h) fun _ => ?_
    refine triple_ite (fun hg => ?_) fun _ => triple_pure fun c h => ⟨.inr rfl, .inl h⟩
    refine triple_bind (fun _ => Since c₀ [g, g]) (fun c h => hg ▸ h.ask (.sFmt fmt)) fun ans => ?_
    cases ans with
    | error e => exact triple_pure fun c h => ⟨.inr rfl, .inr h⟩
    | ok fmt =>
      exact triple_keep (triple_modify fun c h => h) fun _ =>
        triple_pure fun c h => ⟨.inl rfl, .inr h⟩

/-- All formats asked for are `g`, and there is one. -/
theorem doSet_asks (g : PixFmt) (width height : Nat) (h : Since c₀ [] c) (f : PixFmt) :
    f ∈ formatsAsked c₀ (v4l2DoSetPixFormat D g width height c).2 ↔ f = g := by
  obtain ⟨-, h | h⟩ := doSet_since g width height c h
  · rw [h.formatsAsked]
    simp
  · rw [h.formatsAsked]
    simp

theorem doSet_ret (g : PixFmt) (width height : Nat) (c : Cam δ) :
    (v4l2DoSetPixFormat D g width height c).1.1 = 0 ∨
      (v4l2DoSetPixFormat D g width height c).1.1 = -1 :=
  (doSet_since g width height c (since_refl c)).1

/-- After the shortcut was refused: a request for the format found, or nothing. -/
theorem setPixFormat_eq {width height : Nat} (hr : (shortcut D width height c).1.1 = -1) :
    v4l2SetPixFormat D width height c =
      let m := (enumFormats D (D.formats + 1) 0 (-1) (shortcut D width height c).2).1
      if m ≥ 0 then
        v4l2DoSetPixFormat D (supportedFormats.getD m.toNat (.other 0))
          (shortcut D width height c).1.2.1 (shortcut D width height c).1.2.2
          (enumerated D width height c)
      else ((-1, (shortcut D width height c).1.2), enumerated D width height c) := by
  unfold v4l2SetPixFormat enumerated
  rw [get_bind, bind_apply]
  change (v4l2DoSetPixFormat D _ width height c).1.1 = -1 at hr
  unfold shortcut
  generalize v4l2DoSetPixFormat D _ width height c = first at hr ⊢
  obtain ⟨⟨ret, w, h⟩, c₁⟩ := first
  subst hr
  dsimp only
  rw [if_neg (by decide), bind_apply]
  split
  · rw [bind_apply]
    have hret := doSet_ret (D := D) (supportedFormats.getD
      (enumFormats D (D.formats + 1) 0 (-1) c₁).1.toNat (.other 0)) w h
      (enumFormats D (D.formats + 1) 0 (-1) c₁).2
    generalize v4l2DoSetPixFormat D _ w h _ = second at hret ⊢
    obtain ⟨⟨ret, w', h'⟩, c₂⟩ := second
    rcases hret with hret | hret
    · simp only at hret
      subst hret
      rfl
    · simp only at hret
      subst hret
      rfl
  · rfl

variable {l : List PixFmt} {width height : Nat}

theorem enumerated_since (D : Driver δ) (width height : Nat) (c : Cam δ) :
    Since (shortcut D width height c).2 [] (enumerated D width height c) := enumFormats_since _ _ _ _

/-- The formats asked for are the best of those reached, and the result is -1
where there is none or where it is refused. -/
theorem asks_reached (h : Enumerates D l) (hr : (shortcut D width height c).1.1 = -1) :
    (∀ g, g ∈ formatsAsked (shortcut D width height c).2 (v4l2SetPixFormat D width height c).2 ↔
      Best (reached l) g) ∧
      ((v4l2SetPixFormat D width height c).1.1 = -1 ↔
        topRank (reached l) < 0 ∨ ∃ g, Best (reached l) g ∧ Refused D width height c g) := by
  have hsince := enumerated_since D width height c
  rw [setPixFormat_eq hr, enumFormats_topRank h]
  dsimp only
  split
  · rename_i htop
    have hbest := best_exists htop
    refine ⟨fun g => ?_, ?_⟩
    · rw [doSet_asks _ _ _ hsince]
      exact ⟨fun hg => hg ▸ hbest, fun hg => best_unique hg hbest⟩
    · constructor
      · intro href
        exact .inr ⟨_, hbest, href⟩
      · rintro (hneg | ⟨g, hg, href⟩)
        · omega
        · rw [best_unique hg hbest] at href
          exact href
  · rename_i htop
    refine ⟨fun g => ?_, iff_of_true rfl (.inl (by omega))⟩
    rw [hsince.formatsAsked, best_iff]
    refine iff_of_false List.not_mem_nil ?_
    rintro ⟨-, h0, htop'⟩
    omega

theorem mem_of_reached {g : PixFmt} (h : g ∈ reached l) : g ∈ l := by
  unfold reached at h
  rw [List.mem_append] at h
  rcases h with h | h
  · exact List.mem_of_mem_take h
  · exact List.mem_of_mem_drop h

/-- The best format is the same with the formats not reached where it is reached. -/
theorem best_reached_iff (hb : ∀ g, Best l g → g ∈ reached l) (g : PixFmt) :
    Best (reached l) g ↔ Best l g := by
  have hup : ∀ g, Best l g → Best (reached l) g := by
    intro g hg
    obtain ⟨i, hi, -, hmax⟩ := id hg
    exact ⟨i, hi, hb g hg, fun j f hj hf => hmax j f hj (mem_of_reached hf)⟩
  refine ⟨fun hg => ?_, hup g⟩
  obtain ⟨hmem, h0, -⟩ := best_iff.mp hg
  have hbest := best_exists (h0.trans ((topRank_spec l).1 g (mem_of_reached hmem)))
  rw [best_unique hg (hup _ hbest)]
  exact hbest

end Requests

/-- A best format that is not reached is not asked for. -/
theorem not_asksForBest {D : Driver δ} {l : List PixFmt} (h : Enumerates D l)
    {width height : Nat} {c : Cam δ} (hr : (shortcut D width height c).1.1 = -1) {g : PixFmt}
    (hg : Best l g) (hn : g ∉ reached l) : ¬ AsksForBest D width height c l := by
  intro ha
  obtain ⟨-, -, hmem, -⟩ := ((asks_reached h hr).1 g).mp ((ha.asks g).mpr hg)
  exact hn hmem

/-- **The best format of the list is asked for exactly where the counter
reaches it,** for every list of formats the driver enumerates, whenever the
configured palette was refused. -/
theorem v4l2SetPixFormat_asksForBest_iff {D : Driver δ} {l : List PixFmt} (h : Enumerates D l)
    {width height : Nat} {c : Cam δ} (hr : (shortcut D width height c).1.1 = -1) :
    AsksForBest D width height c l ↔ ∀ g, Best l g → g ∈ reached l := by
  constructor
  · intro ha g hg
    by_contra hn
    exact not_asksForBest h hr hg hn ha
  · intro hb
    obtain ⟨hasks, hfails⟩ := asks_reached h hr
    have hnone : topRank (reached l) < 0 ↔ topRank l < 0 := by
      rw [← not_le, ← not_le, ← best_exists_iff, ← best_exists_iff]
      simp only [best_reached_iff hb]
    refine ⟨fun g => (hasks g).trans (best_reached_iff hb g), ?_⟩
    rw [hfails, none_supported_iff, hnone]
    simp only [best_reached_iff hb]

def offer (l : List PixFmt) (i : Nat) : Except Errno PixFmt :=
  match l[i]? with
  | some f => .ok f
  | none => .error 22

theorem offer_end {l : List PixFmt} {i : Nat} (hi : l.length ≤ i) : offer l i = .error 22 := by
  rw [offer, List.getElem?_eq_none hi]

/-- A driver that enumerates `l` and refuses one format, the first of the
supported ones. -/
def offers (l : List PixFmt) : Driver Unit where
  ioctl r d := match r with
    | .enumFmt i => (offer l i, d)
    | .tryFmt fmt => (if fmt.pixelformat = .sn9c10x then .error 22 else .ok fmt, d)
    | .sFmt fmt => (.ok fmt, d)
    | _ => (.error 22, d)
  gettimeofday d := (⟨0, 0⟩, d)
  standards := 0
  formats := l.length
  standards_end _ _ _ := ⟨22, rfl⟩
  formats_end _ _ hi := ⟨22, offer_end hi⟩

theorem offers_enumerates {l : List PixFmt} (hl : l.length < 2 ^ 32) : Enumerates (offers l) l where
  listed i f hf _ := show offer l i = .ok f by rw [offer, hf]
  ended _ hi _ := ⟨22, offer_end hi⟩
  indexed := hl

/-- The configured palette, 0, is refused; of the two supported formats among
those offered, the one with the greater index is asked for. -/
theorem asksForBest_yuyv :
    (AsksForBest (offers [.yuyv, .other 7, .jpeg, .yuyv]) 8 8 (.zero ())
        [.yuyv, .other 7, .jpeg, .yuyv] ↔
      ∀ g, Best [.yuyv, .other 7, .jpeg, .yuyv] g → g ∈ reached [.yuyv, .other 7, .jpeg, .yuyv]) ∧
    formatsAsked (shortcut (offers [.yuyv, .other 7, .jpeg, .yuyv]) 8 8 (.zero ())).2
      (v4l2SetPixFormat (offers [.yuyv, .other 7, .jpeg, .yuyv]) 8 8 (.zero ())).2 =
        [.yuyv, .yuyv] :=
  ⟨v4l2SetPixFormat_asksForBest_iff (offers_enumerates (by decide)) rfl, by decide +kernel⟩

/-- The best format behind `n` unknown ones. -/
def behind (n : Nat) : List PixFmt := List.replicate n (.other 7) ++ [.yuv420]

theorem best_behind (n : Nat) : Best (behind n) .yuv420 := by
  refine ⟨8, rfl, List.mem_append_right _ List.mem_cons_self, fun j f hj _ => ?_⟩
  obtain ⟨hj, -⟩ := List.getElem?_eq_some_iff.mp hj
  exact Nat.le_of_lt_succ hj

theorem behind_not_reached {n : Nat} (h : 2 ^ 15 ≤ n) (hn : n < 2 ^ 32 - 2 ^ 15) :
    .yuv420 ∉ reached (behind n) := by
  unfold reached behind
  rw [List.take_append_of_le_length (by rwa [List.length_replicate]),
    List.drop_eq_nil_of_le (by rw [List.length_append, List.length_replicate]; exact hn),
    List.append_nil, List.take_replicate]
  intro hmem
  have := List.eq_of_mem_replicate hmem
  cases this

/-- The one supported format is the last of 32769. -/
theorem best_not_asked :
    ¬ AsksForBest (offers (behind (2 ^ 15))) 8 8 (.zero ()) (behind (2 ^ 15)) := by
  refine not_asksForBest (offers_enumerates ?_) rfl (best_behind _)
    (behind_not_reached (Nat.le_refl _) (by decide))
  unfold behind
  rw [List.length_append, List.length_replicate]
  decide

end SmartPrince.Common.PixFormatSoundness
