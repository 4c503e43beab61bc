import SmartPrince.Common.SonixTurns

/-! # Sonix decompression inverts the code

A compressed frame is two raw bytes at the start of each of the first two rows
and a codeword for every other pixel. The decoder keeps no state but its bit
position and the pixels already written, so one invariant carries the run:
after `k` pixels the position is the length of their bits and the pixels are
those of the reference recurrence. It does so until the position is no `int`
any more; the pixel there is made of what stands before the input. -/
namespace SmartPrince.Common.SonixSoundness
open SmartPrince.Lib.CInt SmartPrince.Lib.Loop SmartPrince.Lib.Memory SmartPrince.Lib.Plane
open SmartPrince.Lib.Bits SmartPrince.Common.VideoConv SmartPrince.Common.SonixTurns

variable {ι : Type} [DecidableEq ι]

/-! ## The code -/

/-- The codewords, under their differences; two of them have free bits. -/
inductive Codeword where
  | same
  | plus4
  | minus4
  | plus11
  | minus11
  | plus20
  | minus20
  | unknown (x1 x0 : Bool)
  | absolute (x3 x2 x1 x0 : Bool)

def Codeword.bits : Codeword → List Bool
  | .same => [false]
  | .plus4 => [true, false, false]
  | .minus4 => [true, false, true]
  | .plus11 => [true, true, false, true]
  | .minus11 => [true, true, true, true]
  | .plus20 => [true, true, false, false, true]
  | .minus20 => [true, true, false, false, false, false]
  | .unknown x1 x0 => [true, true, false, false, false, true, x1, x0]
  | .absolute x3 x2 x1 x0 => [true, true, true, false, x3, x2, x1, x0]

/-- The number of four bits. -/
def nibble (x3 x2 x1 x0 : Bool) : Nat := 8 * x3.toNat + 4 * x2.toNat + 2 * x1.toNat + x0.toNat

/-- What a codeword says about its pixel. -/
inductive Meaning where
  | value (v : Nat)
  | diff (d : Int)
  deriving DecidableEq

def Codeword.meaning : Codeword → Meaning
  | .same => .diff 0
  | .plus4 => .diff 4
  | .minus4 => .diff (-4)
  | .plus11 => .diff 11
  | .minus11 => .diff (-11)
  | .plus20 => .diff 20
  | .minus20 => .diff (-20)
  | .unknown _ _ => .diff 0
  | .absolute x3 x2 x1 x0 => .value (16 * nibble x3 x2 x1 x0)

/-- The table entry that says the same. -/
def Codeword.entry (c : Codeword) : CodeTable :=
  match c.meaning with
  | .value v => { isAbs := true, val := v, len := c.bits.length }
  | .diff d => { isAbs := false, val := d, len := c.bits.length }

theorem Codeword.bits_length (c : Codeword) : 0 < c.bits.length ∧ c.bits.length ≤ 8 := by
  cases c <;> simp [Codeword.bits]

theorem Codeword.value_le {c : Codeword} {v : Nat} (h : c.meaning = .value v) : v ≤ 255 := by
  cases c with
  | absolute x3 x2 x1 x0 =>
    simp only [Codeword.meaning, Meaning.value.injEq] at h
    subst h
    cases x3 <;> cases x2 <;> cases x1 <;> cases x0 <;> decide
  | _ => simp [Codeword.meaning] at h

/-- Whether byte `n` starts with some bits. -/
def startsWith (n : Nat) (bits : List Bool) : Bool :=
  (bits.zipIdx).all fun (b, j) => n.testBit (7 - j) == b

theorem startsWith_of_starts {b : UInt8} {bits : List Bool} (h : Starts b bits)
    (hlen : bits.length ≤ 8) : startsWith b.toNat bits = true := by
  rw [startsWith, List.all_eq_true]
  rintro ⟨x, j⟩ hx
  obtain ⟨hj, he⟩ := List.mem_zipIdx' hx
  rw [beq_iff_eq]
  exact (h j (by omega) hj).trans he.symm

/-- **Unique decodability.** A byte that starts with a codeword has that codeword's entry. -/
theorem table_entry (c : Codeword) : ∀ n, n < 256 → startsWith n c.bits = true →
    sonixDecompressInit n = c.entry := by
  cases c with
  | unknown x1 x0 => cases x1 <;> cases x0 <;> decide +kernel
  | absolute x3 x2 x1 x0 => cases x3 <;> cases x2 <;> cases x1 <;> cases x0 <;> decide +kernel
  | _ => decide +kernel

theorem entry_of_starts {b : UInt8} {c : Codeword} (h : Starts b c.bits) :
    sonixDecompressInit b.toNat = c.entry :=
  table_entry c _ b.toNat_lt (startsWith_of_starts h c.bits_length.2)

/-! ## Coded frames and the image they stand for -/

/-- The raw bytes of a frame and its codewords, by row and column. -/
structure Coded where
  raw : Nat → Nat → UInt8
  word : Nat → Nat → Codeword

/-- The bits of one pixel. -/
def Coded.token (T : Coded) (row col : Nat) : List Bool :=
  if isRaw row col then byteBits (T.raw row col) else (T.word row col).bits

/-- The bits of the first `n` pixels, row by row. -/
def Coded.stream (T : Coded) (width n : Nat) : List Bool :=
  (List.range n).flatMap fun k => T.token (k / width) (k % width)

/-- A sum cut to a byte. -/
def clampByte (x : Int) : UInt8 := UInt8.ofInt (max 0 (min 255 x))

theorem clampByte_eq (x : Int) : UInt8.ofInt (clamp x) = clampByte x := by
  rw [clampByte, clamp]
  congr 1
  split_ifs <;> omega

theorem clampByte_nat {v : Nat} (hv : v ≤ 255) : clampByte v = UInt8.ofNat v := by
  rw [clampByte, show max 0 (min 255 (v : Int)) = v by omega]
  apply UInt8.toNat_inj.mp
  simp only [UInt8.ofInt, UInt8.toNat_ofNat']
  omega

/-- **The reference recurrence.** -/
def Coded.pixel (T : Coded) (row col : Nat) : UInt8 :=
  if isRaw row col then T.raw row col
  else
    match (T.word row col).meaning with
    | .value v => UInt8.ofNat v
    | .diff d =>
      if col < 2 then
        if 2 ≤ row then clampByte (d + (T.pixel (row - 2) col).toNat) else 0  -- raw
      else if row < 2 then clampByte (d + (T.pixel row (col - 2)).toNat)
      else
        clampByte (d + (((T.pixel row (col - 2)).toNat + (T.pixel (row - 2) col).toNat) / 2 : Nat))
termination_by row + col

theorem stream_succ (T : Coded) (w k : Nat) :
    T.stream w (k + 1) = T.stream w k ++ T.token (k / w) (k % w) := by
  simp [Coded.stream, List.range_succ]

/-- A pixel's bits stand right behind those of the pixels before it. -/
theorem stream_split (T : Coded) (w : Nat) {k n : Nat} (hk : k < n) :
    ∃ rest, T.stream w n = T.stream w k ++ T.token (k / w) (k % w) ++ rest := by
  induction n with
  | zero => exact absurd hk (Nat.not_lt_zero k)
  | succ n ih =>
    rw [stream_succ]
    rcases Nat.lt_succ_iff_lt_or_eq.mp hk with hk | rfl
    · obtain ⟨rest, he⟩ := ih hk
      exact ⟨rest ++ T.token (n / w) (n % w), by rw [he, List.append_assoc]⟩
    · exact ⟨[], (List.append_nil _).symm⟩

theorem token_length (T : Coded) (row col : Nat) :
    0 < (T.token row col).length ∧ (T.token row col).length ≤ 8 := by
  rw [Coded.token]
  split
  · simp
  · exact (T.word row col).bits_length

theorem stream_mono (T : Coded) (w : Nat) {k n : Nat} (hk : k ≤ n) :
    (T.stream w k).length ≤ (T.stream w n).length := by
  induction n, hk using Nat.le_induction with
  | base => exact le_rfl
  | succ n hk ih =>
    rw [stream_succ, List.length_append]
    omega

/-- A pixel takes a bit at least. -/
theorem le_stream (T : Coded) (w k : Nat) : k ≤ (T.stream w k).length := by
  induction k with
  | zero => exact Nat.zero_le _
  | succ k ih =>
    have htok := (token_length T (k / w) (k % w)).1
    rw [stream_succ, List.length_append]
    omega

/-! ## The run -/

/-- The bytes in memory at `inp`. -/
def Stands (bytes : List UInt8) (inp : Ptr ι) (f : Ptr ι → UInt8) : Prop :=
  ∀ k (h : k < bytes.length), f (inp + k) = bytes[k]

/-- The decoder after the first `k` pixels: its position in the stream, the
pixels at `outp`, and no input byte read but those of `bytes`. -/
structure Decoded (T : Coded) (w : Nat) (bytes : List UInt8) (outp inp : Ptr ι)
    (f : Ptr ι → UInt8) (k : Nat) (s : SonixCursor ι × Mem ι) : Prop where
  cursor : s.1.outp = outp + k
  bitpos : s.1.bitpos = int (T.stream w k).length
  byte : s.2.byte = patch outp k (fun i => T.pixel (i / w) (i % w)) f
  loads : ∀ q, .load q ∈ s.2.log → q.base = inp.base → Span inp bytes.length q

section Run
variable {T : Coded} {w n k : Nat} {bytes : List UInt8} {pad : List Bool} {outp inp : Ptr ι}
  {f : Ptr ι → UInt8} {s : SonixCursor ι × Mem ι}

/-- The window at a pixel starts with the pixel's bits. -/
theorem sonixCode_decoded (hbits : bitsOf bytes = T.stream w n ++ pad) (hpad : 8 ≤ pad.length)
    (hb : inp.base ≠ outp.base) (hf : Stands bytes inp f)
    (hfit : (T.stream w k).length < 2 ^ 31) (hn : k < n)
    (hs : Decoded T w bytes outp inp f k s) :
    Starts (sonixCode inp s.1.bitpos s.2).1 (T.token (k / w) (k % w)) ∧
    (sonixCode inp s.1.bitpos s.2).2.byte = s.2.byte ∧
    ∀ q, .load q ∈ (sonixCode inp s.1.bitpos s.2).2.log → q.base = inp.base →
      Span inp bytes.length q := by
  obtain ⟨rest, hrest⟩ := stream_split T w hn
  have hin : ∀ j : Nat, s.2.byte (inp + j) = f (inp + j) := fun j => by
    rw [hs.byte]; exact patch_base hb
  have hpos : bitsOf bytes = T.stream w k ++ T.token (k / w) (k % w) ++ (rest ++ pad) := by
    rw [hbits, hrest]; simp
  have hlen := congrArg List.length hpos
  simp only [List.length_append, bitsOf_length] at hlen
  have htok := (token_length T (k / w) (k % w)).1
  rw [hs.bitpos, int_natCast hfit, sonixCode_natCast]
  refine ⟨?_, rfl, fun q hq hqb => ?_⟩
  · have hw := @window_starts bytes (fun j => f (inp + j)) hf _ _ _ hpos
    rw [← hin, ← hin, ← Ptr.add_assoc] at hw
    exact hw
  · simp only [List.mem_cons, Access.load.injEq] at hq
    rcases hq with rfl | rfl | hq
    · rw [Ptr.add_assoc, span_add]; omega
    · rw [span_add]; omega
    · exact hs.loads q hq hqb

theorem Decoded.store (hs : Decoded T w bytes outp inp f k s) {m : Mem ι} {v : UInt8} {len : Nat}
    (hm : m.byte = s.2.byte) (hv : v = T.pixel (k / w) (k % w))
    (hlen : len = (T.token (k / w) (k % w)).length)
    (hl : ∀ q, .load q ∈ m.log → q.base = inp.base → Span inp bytes.length q) :
    Decoded T w bytes outp inp f (k + 1)
      (⟨s.1.outp + 1, int (s.1.bitpos + len)⟩, m.store s.1.outp v) := by
  refine ⟨by rw [hs.cursor, Ptr.add_assoc], ?_, ?_, fun q hq => hl q (by simpa using hq)⟩
  · rw [hs.bitpos, int_int_add, stream_succ, List.length_append, hlen, Nat.cast_add]
  · rw [Mem.store_byte, hm, hs.byte, hs.cursor, ← update_patch, hv]

/-- A pixel already written, `d` behind the cursor. -/
theorem written (hs : Decoded T w bytes outp inp f k s) {d r c : Nat} (hd : 0 < d) (hc : c < w)
    (hsite : r * w + c + d = k) : s.2.byte (s.1.outp - d) = T.pixel r c := by
  rw [hs.cursor, hs.byte, Ptr.add_sub _ (by omega), patch_in (by omega),
    show k - d = r * w + c by omega, site_div hc, site_mod hc]

theorem written_top (hw : 0 < w) (hs : Decoded T w bytes outp inp f k s) (h2 : 2 ≤ k / w) :
    s.2.byte (s.1.outp - 2 * w) = T.pixel (k / w - 2) (k % w) := by
  refine written hs (by omega) (Nat.mod_lt k hw) ?_
  obtain ⟨r, hr⟩ : ∃ r, k / w = r + 2 := ⟨k / w - 2, by omega⟩
  have hk := Nat.div_add_mod' k w
  rw [hr] at hk ⊢
  rw [Nat.add_sub_cancel]
  have hrow : (r + 2) * w = r * w + 2 * w := Nat.add_mul r 2 w
  omega

theorem written_left (hw : 0 < w) (hs : Decoded T w bytes outp inp f k s) (h2 : 2 ≤ k % w) :
    s.2.byte (s.1.outp - 2) = T.pixel (k / w) (k % w - 2) := by
  have hk := Nat.div_add_mod' k w
  have hmod := Nat.mod_lt k hw
  exact written hs (by omega) (by omega) (by omega)

/-- The predictors are read from the output, not from the input. -/
theorem load_output (hb : inp.base ≠ outp.base) (hs : Decoded T w bytes outp inp f k s) {m : Mem ι}
    (e : Nat) (hm : ∀ q, .load q ∈ m.log → q.base = inp.base → Span inp bytes.length q) :
    ∀ q, .load q ∈ (m.load (s.1.outp - e)).2.log → q.base = inp.base → Span inp bytes.length q := by
  intro q hq hqb
  rcases List.mem_cons.mp hq with he | hq
  · cases he
    rw [Ptr.sub_base, hs.cursor] at hqb
    exact absurd hqb.symm hb
  · exact hm q hq hqb

/-- Two rows of pixels take two rows of bits at least. -/
theorem two_rows_fit (hfit : (T.stream w k).length < 2 ^ 31) (h2 : 2 ≤ k / w) : 2 * w ≤ 2 ^ 31 := by
  have hk := Nat.div_mul_le_self k w
  have hrows := Nat.mul_le_mul_right w h2
  have hle := le_stream T w k
  omega

section Turn
variable (hbits : bitsOf bytes = T.stream w n ++ pad) (hpad : 8 ≤ pad.length)
  (hb : inp.base ≠ outp.base) (hf : Stands bytes inp f)
  (hfit : (T.stream w k).length < 2 ^ 31) (hn : k < n)
include hbits hpad hb hf hfit hn

theorem sonixRaw_decoded (hr : isRaw (k / w) (k % w)) (j : Nat)
    (hs : Decoded T w bytes outp inp f k s) :
    Decoded T w bytes outp inp f (k + 1) (sonixRaw inp j s) := by
  obtain ⟨hc, hbyte, hl⟩ := sonixCode_decoded hbits hpad hb hf hfit hn hs
  rw [Coded.token, if_pos hr] at hc
  refine @Decoded.store ι _ T w k bytes outp inp f s hs _ _ 8 hbyte ?_ ?_ hl
  · exact (starts_byteBits hc).trans (by rw [Coded.pixel, if_pos hr])
  · rw [Coded.token, if_pos hr, byteBits_length]

theorem sonixPixel_decoded (hw : 0 < w) (hr : ¬ isRaw (k / w) (k % w))
    (hs : Decoded T w bytes outp inp f k s) :
    Decoded T w bytes outp inp f (k + 1) (sonixPixel inp w (k / w) (k % w) s) := by
  obtain ⟨hc, hbyte, hl⟩ := sonixCode_decoded hbits hpad hb hf hfit hn hs
  rw [Coded.token, if_neg hr] at hc
  have hentry := entry_of_starts hc
  have hlen : (T.word (k / w) (k % w)).entry.len = (T.token (k / w) (k % w)).length := by
    rw [Coded.token, if_neg hr, Codeword.entry]
    split <;> rfl
  have htop := written_top hw hs
  have hleft := written_left hw hs
  have hshift (h2 : 2 ≤ k / w) := shift_top (two_rows_fit hfit h2) s.1.outp
  have hload : ∀ {m : Mem ι} e, _ := fun {m} => @load_output _ _ _ _ _ _ _ _ _ _ hb hs m
  generalize hcode : sonixCode inp s.1.bitpos s.2 = r at *
  obtain ⟨code, m⟩ := r
  simp only [sonixPixel, hcode, hentry]
  cases hm : (T.word (k / w) (k % w)).meaning with
  | value v =>
    have hpix : T.pixel (k / w) (k % w) = UInt8.ofNat v := by
      rw [Coded.pixel, if_neg hr, hm]
    rw [if_pos (show (T.word (k / w) (k % w)).entry.isAbs = true by rw [Codeword.entry, hm])]
    refine hs.store hbyte ?_ hlen hl
    rw [show (T.word (k / w) (k % w)).entry.val = v by rw [Codeword.entry, hm], clampByte_eq,
      clampByte_nat (Codeword.value_le hm), hpix]
  | diff d =>
    have habs : ¬ (T.word (k / w) (k % w)).entry.isAbs = true := by
      rw [Codeword.entry, hm]
      exact Bool.false_ne_true
    rw [if_neg habs, show (T.word (k / w) (k % w)).entry.val = d by rw [Codeword.entry, hm]]
    by_cases hc2 : k % w < 2
    · have hr2 : 2 ≤ k / w := by rw [isRaw] at hr; omega
      have hpix : T.pixel (k / w) (k % w) =
          clampByte (d + (T.pixel (k / w - 2) (k % w)).toNat) := by
        rw [Coded.pixel, if_neg hr, hm]; simp only [if_pos hc2, if_pos hr2]
      rw [if_pos hc2, hshift hr2]
      refine hs.store hbyte ?_ hlen (hload _ hl)
      rw [clampByte_eq, hpix, ← htop hr2, ← hbyte]
      rfl
    · by_cases hr2 : k / w < 2
      · have hpix : T.pixel (k / w) (k % w) =
            clampByte (d + (T.pixel (k / w) (k % w - 2)).toNat) := by
          rw [Coded.pixel, if_neg hr, hm]; simp only [if_neg hc2, if_pos hr2]
        rw [if_neg hc2, if_pos hr2]
        refine hs.store hbyte ?_ hlen (hload _ hl)
        rw [clampByte_eq, hpix, ← hleft (by omega), ← hbyte]
        rfl
      · have hpix : T.pixel (k / w) (k % w) = clampByte (d + (((T.pixel (k / w) (k % w - 2)).toNat +
            (T.pixel (k / w - 2) (k % w)).toNat) / 2 : Nat)) := by
          rw [Coded.pixel, if_neg hr, hm]; simp only [if_neg hc2, if_neg hr2]
        rw [if_neg hc2, if_neg hr2, hshift (by omega)]
        refine hs.store hbyte ?_ hlen (hload _ (hload _ hl))
        rw [clampByte_eq, hpix, ← hleft (by omega), ← htop (by omega), ← hbyte]
        rfl

theorem sonixTurn_decoded (hw : 0 < w) (hs : Decoded T w bytes outp inp f k s) :
    Decoded T w bytes outp inp f (k + 1) (sonixTurn inp w k s) := by
  unfold sonixTurn
  split
  · next hr => exact sonixRaw_decoded hbits hpad hb hf hfit hn hr _ hs
  · next hr => exact sonixPixel_decoded hbits hpad hb hf hfit hn hw hr hs

end Turn

/-- **The invariant of the run**, as far as the positions are `int`s. -/
theorem sonixAfter_decoded (hw : 0 < w) (hbits : bitsOf bytes = T.stream w n ++ pad)
    (hpad : 8 ≤ pad.length) (hb : inp.base ≠ outp.base)
    (hf : Stands bytes inp f) (k : Nat) (hk : k ≤ n)
    (hfit : ∀ j, j < k → (T.stream w j).length < 2 ^ 31) :
    Decoded T w bytes outp inp f k (sonixAfter outp inp w k ⟨f, []⟩) := by
  induction k with
  | zero =>
    refine ⟨(Ptr.add_zero outp).symm, ?_, patch_zero.symm, fun q hq => nomatch hq⟩
    simp [sonixAfter, Coded.stream, int]
  | succ k ih =>
    rw [sonixAfter, loop_succ]
    exact sonixTurn_decoded hbits hpad hb hf (hfit k (Nat.lt_succ_self k)) hk hw
      (ih (Nat.le_of_succ_le hk) fun j hj => hfit j (Nat.lt_succ_of_lt hj))

end Run

/-! ## The first position that is no `int` -/

/-- The coded frame at `inp`, and behind it, seen from its position 2^31, two
bytes whose window is `v`. -/
def planted (bytes : List UInt8) (inp : Ptr ι) (r : Nat) (v : UInt8) : Ptr ι → UInt8 := fun q =>
  if q.off = inp.off - 2 ^ 28 then UInt8.ofNat (v.toNat >>> r)
  else if q.off = inp.off - 2 ^ 28 + 1 then UInt8.ofNat (v.toNat <<< (8 - r))
  else bytes.getD (q.off - inp.off).toNat 0

omit [DecidableEq ι] in
theorem planted_stands (bytes : List UInt8) (inp : Ptr ι) (r : Nat) (v : UInt8) :
    Stands bytes inp (planted bytes inp r v) := by
  intro k h
  have hoff : (inp + k).off = inp.off + k := rfl
  have hindex : (inp.off + k - inp.off : Int).toNat = k := by omega
  rw [planted, hoff, if_neg (by omega), if_neg (by omega), hindex, List.getD_eq_getElem?_getD,
    List.getElem?_eq_getElem h, Option.getD_some]

/-- The two codes that are planted, each by its number of four bits. -/
def Plant (v : UInt8) : Prop := v = 0xE0 ∨ v = 0xEF

theorem window_planted {v : UInt8} (hv : Plant v) {r : Nat} (hr : r < 8) :
    window (UInt8.ofNat (v.toNat >>> r)) (UInt8.ofNat (v.toNat <<< (8 - r))) r = v := by
  have hlow : ∀ r < 8, window (UInt8.ofNat (0xE0 >>> r)) (UInt8.ofNat (0xE0 <<< (8 - r))) r = 0xE0 := by
    decide
  have hhigh : ∀ r < 8, window (UInt8.ofNat (0xEF >>> r)) (UInt8.ofNat (0xEF <<< (8 - r))) r = 0xEF := by
    decide
  obtain rfl | rfl := hv
  · exact hlow r hr
  · exact hhigh r hr

/-- What a pixel becomes whose code is planted. -/
def plantedPixel (v : UInt8) (row col : Nat) : UInt8 :=
  if isRaw row col then v else UInt8.ofNat (16 * (v.toNat % 16))

theorem plantedPixel_ne (row col : Nat) : plantedPixel 0xE0 row col ≠ plantedPixel 0xEF row col := by
  unfold plantedPixel
  split <;> decide

theorem sonixTurn_planted {v : UInt8} (hv : Plant v) {inp : Ptr ι} {w k : Nat}
    {s : SonixCursor ι × Mem ι} (hcode : (sonixCode inp s.1.bitpos s.2).1 = v) :
    (sonixTurn inp w k s).2.byte s.1.outp = plantedPixel v (k / w) (k % w) := by
  unfold sonixTurn plantedPixel
  generalize hread : sonixCode inp s.1.bitpos s.2 = r at hcode
  obtain ⟨code, m⟩ := r
  dsimp only at hcode
  subst hcode
  split
  · simp only [sonixRaw, hread, Mem.store_byte, Function.update_self]
  · obtain ⟨habs, hval⟩ : (sonixDecompressInit code.toNat).isAbs = true ∧
        UInt8.ofInt (clamp (sonixDecompressInit code.toNat).val) =
          UInt8.ofNat (16 * (code.toNat % 16)) := by
      rcases hv with rfl | rfl
      · exact ⟨rfl, rfl⟩
      · exact ⟨rfl, rfl⟩
    simp only [sonixPixel, hread, if_pos habs, Mem.store_byte, Function.update_self]
    exact hval

section Overflow
variable {T : Coded} {w n k : Nat} {bytes : List UInt8} {pad : List Bool} {outp inp : Ptr ι}
  (hw : 0 < w) (hbits : bitsOf bytes = T.stream w n ++ pad) (hpad : 8 ≤ pad.length)
  (hb : inp.base ≠ outp.base) (hk : k < n) (hfit : ∀ j, j < k → (T.stream w j).length < 2 ^ 31)
  (hover : 2 ^ 31 ≤ (T.stream w k).length)
include hw hbits hpad hb hk hfit hover

/-- The first position that does not fit reads 2^28 bytes before the input. -/
theorem overflowed_pixel {v : UInt8} (hv : Plant v) :
    (sonixAfter outp inp w n ⟨planted bytes inp ((T.stream w k).length - 2 ^ 31) v, []⟩).2.byte
      (outp + k) = plantedPixel v (k / w) (k % w) := by
  generalize hr : (T.stream w k).length - 2 ^ 31 = r
  generalize hf : planted bytes inp r v = f
  have hcoded : Stands bytes inp f := by
    rw [← hf]
    exact planted_stands bytes inp r v
  have hdec := sonixAfter_decoded hw hbits hpad hb hcoded k hk.le hfit
  -- the position is less than a codeword behind the last one that fits
  have hlen : (T.stream w k).length < 2 ^ 31 + 8 := by
    obtain ⟨j, rfl⟩ : ∃ j, k = j + 1 :=
      ⟨k - 1, by have := hover; cases k with | zero => simp [Coded.stream] at this | succ => rfl⟩
    have hlast := hfit j (Nat.lt_succ_self j)
    have htok := (token_length T (j / w) (j % w)).2
    rw [stream_succ, List.length_append]
    omega
  have hpos := hdec.bitpos
  rw [int_overflow (by omega) (by omega)] at hpos
  have hdiv : ((T.stream w k).length - 2 ^ 32 : Int) / 8 = -2 ^ 28 := by omega
  have hmod : (((T.stream w k).length - 2 ^ 32 : Int) % 8).toNat = r := by omega
  have hcode : (sonixCode inp (sonixAfter outp inp w k ⟨f, []⟩).1.bitpos
      (sonixAfter outp inp w k ⟨f, []⟩).2).1 = v := by
    rw [hpos]
    show window (Mem.byte _ (inp.shift _)) (Mem.byte _ (inp.shift _ + 1)) _ = v
    rw [hdiv, hmod, hdec.byte, patch_base (by exact hb), patch_base (by exact hb), ← hf]
    have hoff : (inp.shift (-2 ^ 28)).off = inp.off - 2 ^ 28 := rfl
    rw [planted, planted, Ptr.add_off, hoff, if_pos rfl, if_neg (by omega), if_pos (by omega)]
    exact window_planted hv (by omega)
  have hlater : ∀ j, k + 1 ≤ j → outp + k ≠ outp + j := fun j hj he => by
    rw [Ptr.add_right_inj] at he
    omega
  have hturn := @sonixTurn_planted ι _ v hv inp w k _ hcode
  rw [hdec.cursor] at hturn
  rw [sonixAfter_kept inp w _ hlater hk, sonixAfter, loop_succ]
  exact hturn

end Overflow

/-! ## Exactly when -/

/-- The pixels at `outp` are those of the reference recurrence. -/
def Shows (T : Coded) (w h : Nat) (outp : Ptr ι) (m : Mem ι) : Prop :=
  ∀ row col, row < h → col < w → m.byte (outp + (row * w + col)) = T.pixel row col

section Whole
variable {T : Coded} {w h : Nat} {bytes : List UInt8} {pad : List Bool} {outp inp : Ptr ι}
  (hw : 2 ≤ w) (hbits : bitsOf bytes = T.stream w (w * h) ++ pad) (hpad : 8 ≤ pad.length)
  (hb : inp.base ≠ outp.base)
include hw hbits hpad hb

theorem sonixDecompress_decoded (hfit : (T.stream w (w * h - 1)).length < 2 ^ 31)
    {f : Ptr ι → UInt8} (hf : Stands bytes inp f) :
    Decoded T w bytes outp inp f (w * h) (sonixAfter outp inp w (w * h) ⟨f, []⟩) :=
  sonixAfter_decoded (by omega) hbits hpad hb hf (w * h) le_rfl fun j hj =>
    (stream_mono T w (by omega)).trans_lt hfit

/-- Where a position is no `int`, what is before the input decides on a pixel. -/
theorem fits_of_shows (hshows : ∀ f : Ptr ι → UInt8, Stands bytes inp f →
    Shows T w h outp (sonixDecompress outp inp w h ⟨f, []⟩)) :
    (T.stream w (w * h - 1)).length < 2 ^ 31 := by
  by_contra hlast
  have hex : ∃ k, 2 ^ 31 ≤ (T.stream w k).length := ⟨w * h - 1, Nat.le_of_not_lt hlast⟩
  classical
  obtain ⟨hover, hfirst⟩ := (Nat.find_eq_iff hex).mp rfl
  have hle := Nat.find_min' hex (Nat.le_of_not_lt hlast)
  generalize Nat.find hex = k at hover hfirst hle
  have hpos : 0 < w * h := Nat.pos_of_ne_zero fun h0 => by
    rw [h0] at hlast
    exact hlast (by simp [Coded.stream])
  obtain ⟨col, row, hcol, hrow, hk⟩ := exists_site (show k < w * h by omega)
  have hpixel (v : UInt8) (hv : Plant v) : plantedPixel v (k / w) (k % w) = T.pixel row col := by
    have hplanted := overflowed_pixel (by omega) hbits hpad hb (by omega)
      (fun j hj => Nat.lt_of_not_le (hfirst j hj)) hover hv
    have hcoded := planted_stands bytes inp ((T.stream w k).length - 2 ^ 31) v
    have hshown := hshows _ hcoded row col hrow hcol
    rw [sonix_walk hw, hk, hplanted] at hshown
    exact hshown
  exact plantedPixel_ne (k / w) (k % w) ((hpixel 0xE0 (.inl rfl)).trans (hpixel 0xEF (.inr rfl)).symm)

end Whole

/-- **Sonix decoding inverts the code exactly where the bits before the last
pixel can be counted in an `int`**, whatever else is in memory. It then changes
nothing else and reads no other input. -/
theorem sonix_decompress_inverts_iff (T : Coded) {w h : Nat} (hw : 2 ≤ w) {bytes : List UInt8}
    {pad : List Bool} (hbits : bitsOf bytes = T.stream w (w * h) ++ pad) (hpad : 8 ≤ pad.length)
    {outp inp : Ptr ι} (hb : inp.base ≠ outp.base) :
    ((∀ f : Ptr ι → UInt8, Stands bytes inp f →
        Shows T w h outp (sonixDecompress outp inp w h ⟨f, []⟩)) ↔
      (T.stream w (w * h - 1)).length < 2 ^ 31) ∧
    ((T.stream w (w * h - 1)).length < 2 ^ 31 → ∀ f : Ptr ι → UInt8, Stands bytes inp f →
      (∀ q, ¬ Span outp (w * h) q → (sonixDecompress outp inp w h ⟨f, []⟩).byte q = f q) ∧
      ∀ q, .load q ∈ (sonixDecompress outp inp w h ⟨f, []⟩).log → q.base = inp.base →
        Span inp bytes.length q) := by
  refine ⟨⟨fits_of_shows hw hbits hpad hb, fun hfit f hf row col hrow hcol => ?_⟩,
    fun hfit f hf => ⟨fun q hq => ?_, ?_⟩⟩
  · have hdec := sonixDecompress_decoded hw hbits hpad hb hfit hf
    rw [sonix_walk hw, hdec.byte, patch_in (site_lt hcol hrow), site_div hcol, site_mod hcol]
  · rw [sonix_walk hw, (sonixDecompress_decoded hw hbits hpad hb hfit hf).byte, patch_out hq]
  · rw [sonix_walk hw]
    exact (sonixDecompress_decoded hw hbits hpad hb hfit hf).loads

/-! ## A small frame and a large one -/

/-- A row of two raw bytes and the codeword `1101`. -/
def threePixels : Coded where
  raw _ col := if col = 0 then 0x12 else 0x34
  word _ _ := .plus11

/-- Its stream, and the byte behind it. -/
def threeStream : List UInt8 := [0x12, 0x34, 0xD5, 0xAA]

def source : Ptr Bool := ⟨false, 0⟩

def target : Ptr Bool := ⟨true, 0⟩

theorem sonix_decompress_inverts_three :
    ((∀ f, Stands threeStream source f →
        Shows threePixels 3 1 target (sonixDecompress target source 3 1 ⟨f, []⟩)) ↔
      (threePixels.stream 3 (3 * 1 - 1)).length < 2 ^ 31) ∧
    ((threePixels.stream 3 (3 * 1 - 1)).length < 2 ^ 31 → ∀ f, Stands threeStream source f →
      (∀ q, ¬ Span target (3 * 1) q →
        (sonixDecompress target source 3 1 ⟨f, []⟩).byte q = f q) ∧
      ∀ q, .load q ∈ (sonixDecompress target source 3 1 ⟨f, []⟩).log → q.base = source.base →
        Span source threeStream.length q) :=
  @sonix_decompress_inverts_iff Bool _ threePixels 3 1 (by decide) threeStream
    [false, true, false, true, true, false, true, false, true, false, true, false] (by decide)
    (by decide) target source (by decide)

/-- A frame in which every pixel takes eight bits. -/
def black : Coded where
  raw _ _ := 0xE0
  word _ _ := .absolute false false false false

theorem black_token (row col : Nat) : black.token row col = byteBits 0xE0 := by
  unfold Coded.token
  split
  · rfl
  · rfl

theorem black_stream (w n : Nat) : black.stream w n = bitsOf (List.replicate n 0xE0) := by
  induction n with
  | zero => rfl
  | succ n ih =>
    rw [stream_succ, ih, black_token, bitsOf, bitsOf, List.replicate_succ', List.flatMap_append]
    simp

theorem black_bits (w n : Nat) :
    bitsOf (List.replicate (n + 1) 0xE0) = black.stream w n ++ byteBits 0xE0 := by
  rw [← black_stream w (n + 1), stream_succ, black_token]

/-- A frame of 16384 by 16400 pixels, eight bits each, is not decoded. -/
theorem black_not_inverted :
    ¬ ∀ f, Stands (List.replicate (16384 * 16400 + 1) 0xE0) source f →
      Shows black 16384 16400 target (sonixDecompress target source 16384 16400 ⟨f, []⟩) := by
  intro hshows
  have hpad : 8 ≤ (byteBits 0xE0).length := by rw [byteBits_length]
  have hfit := fits_of_shows (by decide) (black_bits 16384 (16384 * 16400)) hpad (by decide) hshows
  rw [black_stream, bitsOf_length, List.length_replicate] at hfit
  omega

end SmartPrince.Common.SonixSoundness
