import SmartPrince.Common.File
import SmartPrince.Common.PgmSoundness

/-! # The mask file that is created

`put_fixed_mask` writes a picture that `get_pgm` is to read once it has been
edited. Both have the size from the configuration, in decimal digits. -/
namespace SmartPrince.Common.MaskFile
open SmartPrince.Lib.CString SmartPrince.Common.File SmartPrince.Common.Picture
open SmartPrince.Common.PgmSoundness
open SmartPrince.Net.HttpParser (isspace)

/-! ## `put_fixed_mask` -/

/-- `"P5\n"`, `"%d %d\n"` and `"%d\n"` for 255 -/
def header (magic : List UInt8) (width height : Int) : List UInt8 :=
  magic ++ 10 :: (decimal width ++ 32 :: (decimal height ++ 10 :: (decimal 255 ++ [10])))

/-- The file, from the array of `motionsize` bytes that is set to 255. -/
def putFixedMask (motionsize width height : Nat) : List UInt8 :=
  header (ofText "P5") width height ++ (List.replicate motionsize 255).take (width * height)

/-! ## Decimal digits -/

section Digits
variable {n : Nat} {rest : List UInt8}

theorem decimal_nat (n : Nat) : decimal n = (Nat.toDigits 10 n).map Char.toUInt8 := by
  have hneg : ¬ (n : Int) < 0 := Int.not_lt.mpr (Int.natCast_nonneg n)
  rw [decimal, if_neg hneg, List.nil_append, Int.natAbs_natCast]

/-- A digit keeps its value as a byte. -/
theorem toUInt8_digit {c : Char} (h : c.isDigit) :
    isdigit c.toUInt8 = true ∧ c.toUInt8.toNat = c.toNat := by
  obtain ⟨hlow, hhigh⟩ := Char.isDigit_iff_toNat.mp h
  change c.toNat ≤ 57 at hhigh
  have hbyte : c.toUInt8.toNat = c.toNat := by
    change c.toNat % 256 = c.toNat
    omega
  refine ⟨?_, hbyte⟩
  rw [isdigit, Bool.and_eq_true, decide_eq_true_iff, decide_eq_true_iff, UInt8.le_iff_toNat_le,
    UInt8.le_iff_toNat_le, hbyte]
  exact ⟨hlow, hhigh⟩

theorem decimal_digits (n : Nat) : ∀ c ∈ decimal n, isdigit c = true := fun c hc => by
  rw [decimal_nat] at hc
  obtain ⟨d, hd, rfl⟩ := List.mem_map.mp hc
  exact (toUInt8_digit (Nat.isDigit_of_mem_toDigits (by decide) (by decide) hd)).1

theorem decimal_ne_nil (n : Nat) : decimal n ≠ [] := by
  rw [decimal_nat]
  simp

/-- A number that is printed has its own value. -/
theorem digitsValue_decimal (n : Nat) : digitsValue (decimal n) = n := by
  have hvalue : ∀ (l : List Char) (m : Nat), (∀ c ∈ l, c.isDigit) →
      (l.map Char.toUInt8).foldl (fun n c => 10 * n + (c.toNat - 48)) m = Nat.ofDigitChars 10 l m := by
    intro l
    induction l with
    | nil => simp
    | cons c l ih =>
      intro m h
      rw [List.forall_mem_cons] at h
      rw [List.map_cons, List.foldl_cons, Nat.ofDigitChars_cons, ih _ h.2, (toUInt8_digit h.1).2]
      rfl
  rw [digitsValue, decimal_nat, hvalue _ _ fun c hc => Nat.isDigit_of_mem_toDigits (by decide) (by decide) hc]
  exact Nat.ofDigitChars_ten_toDigits

theorem dropWhile_digits (h : ∀ c, rest.head? = some c → isdigit c = false) :
    (decimal n ++ rest).dropWhile isdigit = rest := by
  rw [List.dropWhile_append_of_pos (decimal_digits n)]
  cases rest with
  | nil => rfl
  | cons c rest => simp [h c rfl]

theorem takeWhile_digits (h : ∀ c, rest.head? = some c → isdigit c = false) :
    (decimal n ++ rest).takeWhile isdigit = decimal n := by
  rw [List.takeWhile_append_of_pos (decimal_digits n)]
  cases rest with
  | nil => simp
  | cons c rest => simp [h c rfl]

/-- A digit is no white space, and no sign. -/
theorem digit_plain {c : UInt8} (h : isdigit c = true) :
    isspace c = false ∧ c ≠ '-'.toUInt8 ∧ c ≠ '+'.toUInt8 ∧ c ≠ 10 := by
  have hne : ∀ d, isdigit d = false → c ≠ d := fun d hd hcd => by
    rw [hcd, hd] at h
    cases h
  have hlow : 48 ≤ c := of_decide_eq_true (Bool.and_eq_true_iff.mp h).1
  have hhigh : ¬ c ≤ 13 := fun hc => absurd (UInt8.le_trans hlow hc) (by decide)
  refine ⟨?_, hne _ (by decide), hne _ (by decide), hne _ (by decide)⟩
  simp [isspace, hhigh, hne 32 (by decide)]

/-- A number is read back behind any white space, and what stands behind it is left. -/
theorem scanInt_decimal (n : Nat) {space : List UInt8} (hspace : ∀ c ∈ space, isspace c = true)
    (h : ∀ c, rest.head? = some c → isdigit c = false) :
    scanInt (space ++ (decimal n ++ rest)) = some ((n : Int), rest) := by
  obtain ⟨c, tail, hc⟩ := List.exists_cons_of_ne_nil (decimal_ne_nil n)
  obtain ⟨hplain, hminus, hplus, -⟩ := digit_plain (decimal_digits n c (hc ▸ List.mem_cons_self))
  have hhead : (decimal n ++ rest).head? = some c := by
    rw [hc]
    rfl
  have hdrop : (space ++ (decimal n ++ rest)).dropWhile isspace = decimal n ++ rest := by
    rw [List.dropWhile_append_of_pos hspace, hc, List.cons_append,
      List.dropWhile_cons_of_neg (by simp [hplain])]
  have hsign : ¬ (some c = some '-'.toUInt8 ∨ some c = some '+'.toUInt8) := by
    simp [hminus, hplus]
  have hneg : ¬ (some c = some '-'.toUInt8) := by
    simp [hminus]
  unfold scanInt
  simp only [hdrop, hhead, takeWhile_digits h, dropWhile_digits h, if_neg hsign, if_neg hneg,
    if_neg (decimal_ne_nil n), digitsValue_decimal]

end Digits

/-! ## Read back -/

section ReadBack
variable {width height : Nat}

/-- The header's lines. -/
def file (width height : Nat) (data : List UInt8) : PgmFile where
  magic := ofText "P5" ++ [10]
  sizeComments := []
  size := decimal width ++ 32 :: (decimal height ++ [10])
  maxComments := []
  maximum := decimal 255 ++ [10]
  data := data

theorem file_bytes (width height : Nat) (data : List UInt8) :
    (file width height data).bytes = header (ofText "P5") width height ++ data := by
  simp [file, PgmFile.bytes, header]

theorem decimal_no_feed (n : Nat) : 10 ∉ decimal n := fun h =>
  (digit_plain (decimal_digits n 10 h)).2.2.2 rfl

theorem file_header (width height : Nat) (data : List UInt8) :
    (file width height data).Header width height 255 := by
  constructor
  · intro line hline
    simp only [PgmFile.lines, PgmFile.comments, file, List.append_nil, List.mem_cons,
      List.not_mem_nil, or_false] at hline
    obtain rfl | rfl | rfl := hline
    · exact ⟨_, by decide, rfl⟩
    · refine ⟨decimal width ++ 32 :: decimal height, ?_, by simp⟩
      simp [decimal_no_feed]
    · exact ⟨_, by decide, rfl⟩
  · rfl
  · nofun
  · have hspace : ∀ c ∈ [(32 : UInt8)], isspace c = true := by simp [isspace]
    have hx : scanInt (decimal width ++ 32 :: (decimal height ++ [10])) =
        some ((width : Int), 32 :: (decimal height ++ [10])) :=
      @scanInt_decimal _ width [] nofun fun c hc => by
        cases hc
        rfl
    have hy : scanInt (32 :: (decimal height ++ [10])) = some ((height : Int), [10]) :=
      scanInt_decimal height hspace fun c hc => by
        cases hc
        rfl
    change scanTwo (decimal width ++ 32 :: (decimal height ++ [10])) = _
    unfold scanTwo
    rw [hx]
    dsimp only
    rw [hy]
  · exact ⟨[10], @scanInt_decimal [10] 255 [] nofun fun c hc => by
      cases hc
      rfl⟩

theorem decimal_length {n : Nat} (h : n < 2 ^ 31) : (decimal n).length ≤ 10 := by
  rw [decimal_nat, List.length_map, Nat.length_toDigits_le_iff (by decide) (by decide)]
  exact h.trans (by decide)

theorem file_short {data : List UInt8} (hw : width < 2 ^ 31) (hh : height < 2 ^ 31) :
    ∀ line ∈ (file width height data).lines, line.length ≤ 254 := by
  intro line hline
  simp only [PgmFile.lines, PgmFile.comments, file, List.append_nil, List.mem_cons,
    List.not_mem_nil, or_false] at hline
  obtain rfl | rfl | rfl := hline
  · decide
  · have := decimal_length hw
    have := decimal_length hh
    simp only [List.length_append, List.length_cons, List.length_nil]
    omega
  · decide

theorem cutHeader_written (hw : width < 2 ^ 31) (hh : height < 2 ^ 31) (data : List UInt8) :
    cutHeader (header (ofText "P5") width height ++ data) = some ⟨width, height, 255, data⟩ := by
  rw [← file_bytes, cutHeader_file (file_header width height data) (file_short hw hh)]
  exact wholeHeader_file (file_header width height data)

/-- Where 255 is the maximum, no byte is changed. -/
theorem scaled_255 (raw : UInt8) : scaled 255 raw = raw := by
  have hdiv : ((raw.toNat : Int) * 255).tdiv 255 = (raw.toNat : Int) :=
    Int.mul_tdiv_cancel _ (by decide)
  rw [scaled, hdiv, UInt8.ofInt, Int.emod_eq_of_lt (by omega) (by have := raw.toNat_lt; omega), Int.toNat_natCast]
  exact UInt8.ofNat_toNat

theorem readImage_255 (h31 : width * height < 2 ^ 31) {data : List UInt8}
    (hlen : width * height ≤ data.length) :
    readImage width height 255 data = .image ((data.take (width * height)).map some) := by
  have hscaled : Option.map (scaled 255) = id := by
    rw [funext scaled_255]
    exact Option.map_id
  rw [readImage, if_neg (Nat.not_le.mpr h31), if_neg (by decide), readRows_padded, hscaled, List.map_id,
    padded_enough hlen]

theorem putFixedMask_eq {motionsize : Nat} (h : width * height ≤ motionsize) :
    putFixedMask motionsize width height =
      header (ofText "P5") width height ++ List.replicate (width * height) 255 := by
  rw [putFixedMask, List.take_replicate, Nat.min_eq_left h]

/-- **A mask that was created is read back byte for byte, whatever was drawn into
it**, where the size is the same, and refused where it is not. -/
theorem mask_read_back {toInt : Int → Int} (hint : ∀ n : Int, -2 ^ 31 ≤ n → n < 2 ^ 31 → toInt n = n)
    (hw : 0 < width) (hh : 0 < height) (h31 : width * height < 2 ^ 31) {motionsize : Nat}
    (hsize : width * height ≤ motionsize) (width' height' : Nat) :
    getPgm toInt width' height' (putFixedMask motionsize width height) =
        (if width' = width ∧ height' = height then
          .image (List.replicate (width * height) (some 255)) else .null) ∧
      ∀ drawn : List UInt8, width * height ≤ drawn.length →
        getPgm toInt width' height' (header (ofText "P5") width height ++ drawn) =
          if width' = width ∧ height' = height then
            .image ((drawn.take (width * height)).map some) else .null := by
  have hw31 : width < 2 ^ 31 := (Nat.le_mul_of_pos_right _ hh).trans_lt h31
  have hh31 : height < 2 ^ 31 := (Nat.le_mul_of_pos_left _ hw).trans_lt h31
  have hdrawn : ∀ drawn : List UInt8, width * height ≤ drawn.length →
      getPgm toInt width' height' (header (ofText "P5") width height ++ drawn) =
        if width' = width ∧ height' = height then
          .image ((drawn.take (width * height)).map some) else .null := fun drawn hlen => by
    rw [getPgm_cutHeader, cutHeader_written hw31 hh31]
    dsimp only
    rw [hint width (by omega) (by omega), hint height (by omega) (by omega), hint 255 (by decide) (by decide)]
    by_cases hsame : width' = width ∧ height' = height
    · obtain ⟨rfl, rfl⟩ := hsame
      rw [if_neg (by simp), if_pos ⟨rfl, rfl⟩, readImage_255 h31 hlen]
    · rw [if_neg hsame, if_pos (by omega)]
  refine ⟨?_, hdrawn⟩
  rw [putFixedMask_eq hsize, hdrawn _ (by simp)]
  simp

end ReadBack

theorem mask_read_back_vga :
    getPgm id 640 480 (putFixedMask (640 * 480 * 3) 640 480) =
      .image (List.replicate (640 * 480) (some 255)) :=
  (mask_read_back (fun _ _ _ => rfl) (by decide) (by decide) (by decide) (by decide) 640 480).1

end SmartPrince.Common.MaskFile
