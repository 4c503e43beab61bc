import SmartPrince.Common.SonixSoundness

/-! # Sonix decompression of any bytes

A corrupt frame is not the code of an image, but the decoder treats it as one:
every byte has an entry in the table, so each pixel takes a codeword's bits and
two bytes of the window, and its predictors lie behind the output cursor. The
frame must only be short enough for its bits to be counted in an `int`. -/
namespace SmartPrince.Common.SonixBounds
open SmartPrince.Lib.CInt SmartPrince.Lib.Loop SmartPrince.Lib.Memory SmartPrince.Lib.Plane
open SmartPrince.Common.VideoConv SmartPrince.Common.SonixTurns SmartPrince.Common.SonixSoundness

variable {ι : Type} [DecidableEq ι]

/-! ## One pixel -/

/-- Every byte has an entry of one to eight bits. -/
theorem table_len : ∀ n, n < 256 → 1 ≤ (sonixDecompressInit n).len ∧ (sonixDecompressInit n).len ≤ 8 := by
  decide +kernel

omit [DecidableEq ι] in
theorem bitsTaken_range (inp : Ptr ι) (w k : Nat) (s : SonixCursor ι × Mem ι) :
    1 ≤ bitsTaken inp w k s ∧ bitsTaken inp w k s ≤ 8 := by
  unfold bitsTaken
  split
  · omega
  · exact table_len _ (UInt8.toNat_lt _)

/-- Pixel `k` of a frame of `n`: one to eight bits, two input bytes of index at
most `n`, predictors among the pixels before it, one store. -/
structure Turned (outp inp : Ptr ι) (w n k : Nat) (s s' : SonixCursor ι × Mem ι) : Prop where
  bits : s.1.bitpos + 1 ≤ s'.1.bitpos ∧ s'.1.bitpos ≤ s.1.bitpos + 8
  cursor : s'.1.outp = s.1.outp + 1
  accesses : ∃ (i : Nat) (predictors : List (Ptr ι)),
    s'.2.log = .store (outp + k) :: (predictors.map .load ++
      .load (inp + (i + 1)) :: .load (inp + i) :: s.2.log) ∧
    i + 1 ≤ n ∧
    ∀ p ∈ predictors, (p = s.1.outp - 2 ∨ p = s.1.outp - 2 * w) ∧ ∃ i, i < k ∧ p = outp + i

/-- The bits of the first `k` pixels, read from the input one code after the other. -/
def codeBits (f : Ptr ι → UInt8) (inp : Ptr ι) (w : Nat) : Nat → Nat
  | 0 => 0
  | k + 1 =>
    let p := codeBits f inp w k
    p + if isRaw (k / w) (k % w) then 8
      else (sonixDecompressInit (sonixCode inp p ⟨f, []⟩).1.toNat).len

section Turn
variable {outp inp : Ptr ι} {w n k : Nat} {s : SonixCursor ι × Mem ι}

omit [DecidableEq ι] in
/-- What a pixel reads and stores, when its window is the next two bytes. -/
theorem Turned.of_log {s' : SonixCursor ι × Mem ι} {p : Nat} (predictors : List (Ptr ι))
    (hcur : s.1.outp = outp + k) (hpos : s.1.bitpos = p) (hp : p ≤ 8 * k) (hk : k < n) {len : Nat}
    (hlen : 1 ≤ len ∧ len ≤ 8) (hfit : p + len < 2 ^ 31)
    (hc : s'.1 = ⟨s.1.outp + 1, int (s.1.bitpos + len)⟩)
    (hlog : s'.2.log = .store s.1.outp :: (predictors.map .load ++
      (sonixCode inp s.1.bitpos s.2).2.log))
    (hpre : ∀ p ∈ predictors, (p = s.1.outp - 2 ∧ 2 ≤ k) ∨ (p = s.1.outp - 2 * w ∧ 0 < w ∧ 2 * w ≤ k)) :
    Turned outp inp w n k s s' := by
  have hnext : int (s.1.bitpos + len) = p + len := by
    rw [hpos, int_eq (by omega) (by omega)]
  refine ⟨by rw [hc]; dsimp only; omega, by rw [hc], p / 8, predictors, ?_, by omega, fun p hp => ?_⟩
  · rw [hlog, hcur, hpos, sonixCode_natCast]
    simp only [Ptr.add_assoc]
  · rcases hpre p hp with ⟨rfl, h2⟩ | ⟨rfl, hw, h2⟩
    · exact ⟨.inl rfl, k - 2, by omega, by rw [hcur, Ptr.add_sub _ h2]⟩
    · exact ⟨.inr rfl, k - 2 * w, by omega, by rw [hcur, Ptr.add_sub _ h2]⟩

theorem sonixTurn_turned (hw : 2 ≤ w) (hk : k < n) {p : Nat} (hcur : s.1.outp = outp + k)
    (hpos : s.1.bitpos = p) (hp : p ≤ 8 * k) (hkp : k ≤ p)
    (hfit : p + bitsTaken inp w k s < 2 ^ 31) : Turned outp inp w n k s (sonixTurn inp w k s) := by
  have hlen := bitsTaken_range inp w k s
  unfold sonixTurn bitsTaken at *
  split
  · next hr =>
    rw [if_pos hr] at hlen hfit
    exact .of_log [] hcur hpos hp hk hlen hfit rfl rfl (by simp)
  · next hr =>
    rw [if_neg hr] at hlen hfit
    have hrow : k / w * w + k % w = k := Nat.div_add_mod' k w
    have htop (h : 2 ≤ k / w) : 2 * w ≤ k := by
      have hle := Nat.mul_le_mul_right w h
      omega
    have hshift (h : 2 ≤ k / w) : s.1.outp.shift (int (-2 * w)) = s.1.outp - 2 * w := by
      have hle := htop h
      exact shift_top (by omega) s.1.outp
    -- The predictors follow the branches of the source: none, top, left, left and top.
    generalize hcode : sonixCode inp s.1.bitpos s.2 = r at hlen hfit
    obtain ⟨code, m⟩ := r
    have hlog : m.log = (sonixCode inp s.1.bitpos s.2).2.log := by rw [hcode]
    simp only [sonixPixel, hcode]
    by_cases habs : (sonixDecompressInit code.toNat).isAbs
    · simp only [if_pos habs]
      exact .of_log [] hcur hpos hp hk hlen hfit rfl (congrArg _ hlog) (by simp)
    · by_cases hcol : k % w < 2
      · have hr2 : 2 ≤ k / w := by rw [isRaw] at hr; omega
        simp only [if_neg habs, if_pos hcol, hshift hr2]
        refine .of_log [s.1.outp - 2 * w] hcur hpos hp hk hlen hfit rfl (by rw [← hlog]; rfl) ?_
        simpa using .inr ⟨by omega, htop hr2⟩
      · by_cases hr2 : k / w < 2
        · simp only [if_neg habs, if_neg hcol, if_pos hr2]
          refine .of_log [s.1.outp - 2] hcur hpos hp hk hlen hfit rfl (by rw [← hlog]; rfl) ?_
          simpa using .inl (by omega)
        · simp only [if_neg habs, if_neg hcol, if_neg hr2, hshift (show 2 ≤ k / w by omega)]
          refine .of_log [s.1.outp - 2 * w, s.1.outp - 2] hcur hpos hp hk hlen hfit rfl
            (by rw [← hlog]; rfl) fun p hp => ?_
          simp only [List.mem_cons, List.not_mem_nil, or_false] at hp
          rcases hp with rfl | rfl
          · exact .inr ⟨rfl, by omega, htop (by omega)⟩
          · exact .inl ⟨rfl, by omega⟩

theorem load_stores (m : Mem ι) (p q : Ptr ι) :
    (m.load p).2.log.count (.store q) = m.log.count (.store q) :=
  List.count_cons_of_ne (by simp)

theorem sonixCode_stores (p : Int) (m : Mem ι) (q : Ptr ι) :
    (sonixCode inp p m).2.log.count (.store q) = m.log.count (.store q) := by
  rw [← load_stores m (inp.shift (p / 8)) q]
  exact load_stores (m.load (inp.shift (p / 8))).2 (inp.shift (p / 8) + 1) q

/-- Each pixel once. -/
theorem sonixTurn_stores (k : Nat) (s : SonixCursor ι × Mem ι) (q : Ptr ι) :
    (sonixTurn inp w k s).2.log.count (.store q) =
      s.2.log.count (.store q) + if s.1.outp = q then 1 else 0 := by
  have hstore (m : Mem ι) (v : UInt8) (hm : m.log.count (.store q) = s.2.log.count (.store q)) :
      (m.store s.1.outp v).log.count (.store q) =
        s.2.log.count (.store q) + if s.1.outp = q then 1 else 0 := by
    rw [Mem.store_log, List.count_cons, hm]
    simp
  have hcode := @sonixCode_stores ι _ inp s.1.bitpos s.2 q
  unfold sonixTurn
  split
  · exact hstore _ _ hcode
  · simp only [sonixPixel]
    split
    · exact hstore _ _ hcode
    · split
      · exact hstore _ _ ((load_stores _ _ q).trans hcode)
      · split
        · exact hstore _ _ ((load_stores _ _ q).trans hcode)
        · exact hstore _ _ ((load_stores _ _ q).trans ((load_stores _ _ q).trans hcode))

end Turn

/-! ## The run -/

section Run
variable {outp inp : Ptr ι} {w : Nat} (m : Mem ι)

theorem sonixAfter_stores (q : Ptr ι) (k : Nat) :
    (sonixAfter outp inp w k m).2.log.count (.store q) =
      m.log.count (.store q) + once outp k q := by
  induction k with
  | zero => simp [sonixAfter, once]
  | succ k ih =>
    have hturn := @sonixTurn_stores ι _ inp w k (sonixAfter outp inp w k m) q
    rw [ih, sonixAfter_outp] at hturn
    rw [once_succ, ← Nat.add_assoc]
    exact hturn

omit [DecidableEq ι] in
theorem codeBits_range (f : Ptr ι → UInt8) (k : Nat) :
    k ≤ codeBits f inp w k ∧ codeBits f inp w k ≤ 8 * k ∧
      codeBits f inp w k ≤ codeBits f inp w (k + 1) := by
  have hstep (k : Nat) : codeBits f inp w k + 1 ≤ codeBits f inp w (k + 1) ∧
      codeBits f inp w (k + 1) ≤ codeBits f inp w k + 8 := by
    rw [codeBits]
    split
    · omega
    · have hlen := table_len _ (sonixCode inp (codeBits f inp w k) ⟨f, []⟩).1.toNat_lt
      omega
  refine ⟨?_, ?_, by have := (hstep k).1; omega⟩
  · induction k with
    | zero => exact Nat.zero_le _
    | succ k ih => have := (hstep k).1; omega
  · induction k with
    | zero => exact le_rfl
    | succ k ih => have := (hstep k).2; omega

omit [DecidableEq ι] in
theorem codeBits_mono (f : Ptr ι → UInt8) {k n : Nat} (h : k ≤ n) :
    codeBits f inp w k ≤ codeBits f inp w n := by
  induction n, h using Nat.le_induction with
  | base => exact le_rfl
  | succ n _ ih => exact ih.trans (codeBits_range f n).2.2

omit [DecidableEq ι] in
theorem bitsTaken_eq {k p : Nat} {f : Ptr ι → UInt8} {s : SonixCursor ι × Mem ι}
    (hpos : s.1.bitpos = p) (hbyte : ∀ j : Nat, s.2.byte (inp + j) = f (inp + j)) :
    bitsTaken inp w k s = if isRaw (k / w) (k % w) then 8
      else (sonixDecompressInit (sonixCode inp p ⟨f, []⟩).1.toNat).len := by
  rw [bitsTaken, hpos, sonixCode_natCast, sonixCode_natCast]
  dsimp only
  rw [Ptr.add_assoc, hbyte, hbyte]

variable {m} (hb : inp.base ≠ outp.base)
include hb

theorem bitsTaken_after {k : Nat}
    (hpos : (sonixAfter outp inp w k m).1.bitpos = codeBits m.byte inp w k) :
    codeBits m.byte inp w (k + 1) =
      codeBits m.byte inp w k + bitsTaken inp w k (sonixAfter outp inp w k m) := by
  rw [codeBits, bitsTaken_eq hpos fun j => sonixAfter_apart inp w m (by exact hb) k]

/-- The position is the number of the bits, as long as that is an `int`. -/
theorem sonixAfter_bitpos {k : Nat} (hfit : codeBits m.byte inp w k < 2 ^ 31) :
    (sonixAfter outp inp w k m).1.bitpos = codeBits m.byte inp w k := by
  induction k with
  | zero => rfl
  | succ k ih =>
    have hpos := ih ((codeBits_range m.byte k).2.2.trans_lt hfit)
    have hnext := bitsTaken_after hb hpos
    have hturn := congrArg SonixCursor.bitpos
      (sonixTurn_steps inp w k (sonixAfter outp inp w k m)).1
    rw [hnext] at hfit ⊢
    rw [hpos, int_eq (by omega) (by omega)] at hturn
    exact hturn.trans (Nat.cast_add _ _).symm

/-- **Each pixel is decoded in bounds exactly where all bits can be counted.** -/
theorem turned_iff (hw : 2 ≤ w) (n : Nat) :
    (∀ k, k < n → Turned outp inp w n k (sonixAfter outp inp w k m)
      (sonixAfter outp inp w (k + 1) m)) ↔ codeBits m.byte inp w n < 2 ^ 31 := by
  constructor
  · intro hall
    -- the position grows with every pixel, and is an `int`
    have hpos (k : Nat) (hk : k ≤ n) : codeBits m.byte inp w k < 2 ^ 31 := by
      induction k with
      | zero => exact (by decide : (0 : Nat) < 2 ^ 31)
      | succ k ih =>
        have hbefore := sonixAfter_bitpos hb (ih (Nat.le_of_succ_le hk))
        have hturned := (hall k hk).bits
        have hnext := bitsTaken_after hb hbefore
        have htaken := bitsTaken_range inp w k (sonixAfter outp inp w k m)
        have hturn := congrArg SonixCursor.bitpos
          (sonixTurn_steps inp w k (sonixAfter outp inp w k m)).1
        dsimp only at hturn
        by_contra hover
        have hfit := ih (Nat.le_of_succ_le hk)
        rw [hbefore, int_overflow (by omega) (by omega)] at hturn
        have hafter : (sonixAfter outp inp w (k + 1) m).1.bitpos =
            codeBits m.byte inp w k + bitsTaken inp w k (sonixAfter outp inp w k m) - 2 ^ 32 := hturn
        omega
    exact hpos n le_rfl
  · intro hfit k hk
    have hnext := (@codeBits_mono ι inp w m.byte (k + 1) n hk).trans_lt hfit
    have hpos := sonixAfter_bitpos hb ((codeBits_range m.byte k).2.2.trans_lt hnext)
    have hrange := @codeBits_range ι inp w m.byte k
    rw [bitsTaken_after hb hpos] at hnext
    exact sonixTurn_turned hw hk (sonixAfter_outp outp inp w m k) hpos hrange.2.1 hrange.1 hnext

end Run

/-- **Sonix decompression stays in bounds on any input whose bits can be counted
in an `int`**, and only there. It stores each pixel once and nothing else on
every input. -/
theorem sonix_bounded_iff {w : Nat} (hw : 2 ≤ w) (h : Nat) {outp inp : Ptr ι}
    (hb : inp.base ≠ outp.base) (m : Mem ι) :
    sonixDecompress outp inp w h m = (sonixAfter outp inp w (w * h) m).2 ∧
    (∀ q, (sonixDecompress outp inp w h m).log.count (.store q) =
      m.log.count (.store q) + once outp (w * h) q) ∧
    ((∀ k, k < w * h → Turned outp inp w (w * h) k (sonixAfter outp inp w k m)
      (sonixAfter outp inp w (k + 1) m)) ↔ codeBits m.byte inp w (w * h) < 2 ^ 31) := by
  refine ⟨sonix_walk hw outp inp h m, fun q => ?_, turned_iff hb hw (w * h)⟩
  rw [sonix_walk hw]
  exact sonixAfter_stores m q (w * h)

/-- The stream of three pixels, in memory. -/
def threeBytes (p : Ptr Bool) : UInt8 := threeStream.getD p.off.toNat 0

theorem sonix_bounded_square :
    sonixDecompress target source 3 3 ⟨threeBytes, []⟩ =
      (sonixAfter target source 3 (3 * 3) ⟨threeBytes, []⟩).2 ∧
    (∀ q, (sonixDecompress target source 3 3 ⟨threeBytes, []⟩).log.count (.store q) =
      0 + once target (3 * 3) q) ∧
    ((∀ k, k < 3 * 3 → Turned target source 3 (3 * 3) k
      (sonixAfter target source 3 k ⟨threeBytes, []⟩)
      (sonixAfter target source 3 (k + 1) ⟨threeBytes, []⟩)) ↔
        codeBits threeBytes source 3 (3 * 3) < 2 ^ 31) :=
  sonix_bounded_iff (by decide) 3 (by decide) ⟨threeBytes, []⟩

/-! ## Bytes that all start a long code -/

/-- Every byte says that the pixel is black. -/
def blackBytes (_ : Ptr Bool) : UInt8 := 0xE0

theorem blackBytes_codeBits (w k : Nat) : codeBits blackBytes source w k = 8 * k := by
  induction k with
  | zero => rfl
  | succ k ih =>
    have hcode : (sonixCode source (8 * k : Nat) ⟨blackBytes, []⟩).1 = 0xE0 := by
      rw [sonixCode_natCast]
      dsimp only [blackBytes]
      rw [Nat.mul_mod_right]
      rfl
    rw [codeBits, ih, hcode]
    split
    · rfl
    · rfl

/-- 16384 by 16400 of them are read from before the input in the end. -/
theorem blackBytes_not_bounded :
    ¬ ∀ k, k < 16384 * 16400 → Turned target source 16384 (16384 * 16400) k
      (sonixAfter target source 16384 k ⟨blackBytes, []⟩)
      (sonixAfter target source 16384 (k + 1) ⟨blackBytes, []⟩) := by
  intro hall
  have hfit := (turned_iff (by decide) (by decide) (16384 * 16400)).mp hall
  rw [blackBytes_codeBits] at hfit
  omega

end SmartPrince.Common.SonixBounds
