import SmartPrince.Common.MaskFile
import SmartPrince.Wiring.Extensions

/-! # What an extension text stands for

A text in which every parameter is spelled as `wpiExtensions.c` has it calls the
setup function with the values that are spelled, or fails in the first that is
out of range. A call that any other text leads to has its values in range as
well. -/
namespace SmartPrince.Wiring.ExtensionSoundness
open SmartPrince.Lib.CString SmartPrince.Lib.Readers SmartPrince.Wiring.Extensions
open SmartPrince.Common.Picture (isdigit)

/-! ## Texts that are well spelled -/

/-- A decimal, octal or hexadecimal number, or a string with or without brackets. -/
inductive Spelled : Arg → List UInt8 → Prop where
  | decimal {c : UInt8} {ds : List UInt8} (hfirst : c ≠ '0'.toUInt8)
      (hds : ∀ d ∈ c :: ds, isdigit d = true) (hmax : number 10 (c :: ds) < 2147483648) :
      Spelled (.int (number 10 (c :: ds))) (c :: ds)
  | octal {ds : List UInt8} (hds : ∀ d ∈ ds, digitOf 8 d = true) (hmax : number 8 ds < 2147483648) :
      Spelled (.int (number 8 ds)) ('0'.toUInt8 :: ds)
  | hexadecimal {d : UInt8} {ds : List UInt8} (hds : ∀ e ∈ d :: ds, isxdigit e = true)
      (hmax : number 16 (d :: ds) < 2147483648) :
      Spelled (.int (number 16 (d :: ds))) ('0'.toUInt8 :: 'x'.toUInt8 :: d :: ds)
  | bare {c : UInt8} {s : List UInt8} (hfirst : c ≠ '['.toUInt8) (hprint : isprint c = true)
      (hs : 0 ∉ c :: s ∧ ':'.toUInt8 ∉ c :: s) : Spelled (.str (c :: s)) (c :: s)
  | quoted {s : List UInt8} (hprint : ∀ c, s.head? = some c → isprint c = true)
      (hs : 0 ∉ s ∧ ']'.toUInt8 ∉ s) : Spelled (.str s) ('['.toUInt8 :: (s ++ [']'.toUInt8]))

/-- Every parameter has its colon. Nothing is spelled for an empty string that
is not the last of them. -/
inductive Written : List Arg → List UInt8 → Prop where
  | nil : Written [] []
  | cons {a : Arg} {as : List Arg} {t ts : List UInt8} (ht : Spelled a t) (hts : Written as ts) :
      Written (a :: as) (':'.toUInt8 :: (t ++ ts))
  | skipped {a : Arg} {as : List Arg} {ts : List UInt8} (hts : Written (a :: as) ts) :
      Written (.str [] :: a :: as) (':'.toUInt8 :: ts)

/-- What a parameter ends before. -/
def Stop (c : UInt8) : Prop := c = 0 ∨ c = ':'.toUInt8

instance (c : UInt8) : Decidable (Stop c) := inferInstanceAs (Decidable (_ ∨ _))

/-- The checks of values that are known, in the order of the parameters. -/
def validate (defaultServerPort : Nat) : List Param → List Arg → Except Error (List Arg)
  | param :: params, arg :: args =>
    match param.check defaultServerPort arg with
    | .error e => .error e
    | .ok arg => (validate defaultServerPort params args).map (arg :: ·)
  | _, _ => .ok []

/-! ## Digits -/

section Digits
variable {c : UInt8} {ds rest : List UInt8}

theorem Stop.isxdigit (h : Stop c) : isxdigit c = false := by
  rcases h with rfl | rfl <;> rfl

theorem Stop.digitOf (h : Stop c) (b : Nat) : digitOf b c = false := by
  rw [Extensions.digitOf, h.isxdigit, Bool.false_and]

theorem Stop.isdigit (h : Stop c) : isdigit c = false := by
  rcases h with rfl | rfl <;> rfl

theorem isxdigit_of_isdigit (h : isdigit c = true) : isxdigit c = true := by
  rw [isxdigit, h, Bool.true_or, Bool.true_or]

theorem isdigit_iff : isdigit c = true ↔ 48 ≤ c.toNat ∧ c.toNat ≤ 57 := by
  simp [isdigit, UInt8.le_iff_toNat_le]

theorem isxdigit_iff : isxdigit c = true ↔ isdigit c = true ∨
    (65 ≤ c.toNat ∧ c.toNat ≤ 70) ∨ (97 ≤ c.toNat ∧ c.toNat ≤ 102) := by
  simp [isxdigit, UInt8.le_iff_toNat_le, or_assoc]

/-- A digit's value, by the range that it is in. -/
theorem digitOf_iff {b : Nat} : digitOf b c = true ↔
    (48 ≤ c.toNat ∧ c.toNat ≤ 57 ∧ c.toNat - 48 < b) ∨
    (65 ≤ c.toNat ∧ c.toNat ≤ 70 ∧ c.toNat - 55 < b) ∨
    (97 ≤ c.toNat ∧ c.toNat ≤ 102 ∧ c.toNat - 87 < b) := by
  have hletter : (97 : UInt8) ≤ c ↔ 97 ≤ c.toNat := by
    rw [UInt8.le_iff_toNat_le]
    exact Iff.rfl
  rw [digitOf, digitValue, Bool.and_eq_true, decide_eq_true_iff, isxdigit_iff]
  simp only [isdigit_iff, hletter]
  split
  · omega
  · split <;> omega

theorem digitOf_ten_of_isdigit (h : isdigit c = true) : digitOf 10 c = true := by
  rw [isdigit_iff] at h
  rw [digitOf_iff]
  omega

theorem isdigit_of_digitOf_eight (h : digitOf 8 c = true) : isdigit c = true := by
  rw [digitOf_iff] at h
  rw [isdigit_iff]
  omega

theorem digitOf_sixteen_of_isxdigit (h : isxdigit c = true) : digitOf 16 c = true := by
  rw [isxdigit_iff, isdigit_iff] at h
  rw [digitOf_iff]
  omega

theorem takeWhile_stop {p : UInt8 → Bool} (hds : ∀ d ∈ ds, p d = true) (hc : p c = false) :
    (ds ++ c :: rest).takeWhile p = ds := by
  rw [List.takeWhile_append_of_pos hds, List.takeWhile_cons_of_neg (by simp [hc]), List.append_nil]

theorem dropWhile_stop {p : UInt8 → Bool} (hds : ∀ d ∈ ds, p d = true) (hc : p c = false) :
    (ds ++ c :: rest).dropWhile p = c :: rest := by
  rw [List.dropWhile_append_of_pos hds, List.dropWhile_cons_of_neg (by simp [hc])]

end Digits

/-! ## One parameter -/

section Read
variable {longMax : Nat} {c : UInt8} {rest t : List UInt8}

/-- Digits are not followed by what else may stand for a number's base. -/
theorem headD_digits {ds : List UInt8} {x : UInt8} (hds : ∀ d ∈ ds, isdigit d = true) (hc : Stop c)
    (hx : isdigit x = false) (hstop : ¬ Stop x) : (ds ++ c :: rest).headD 0 ≠ x := by
  rintro rfl
  cases ds with
  | nil => exact hstop hc
  | cons d ds =>
    rw [List.cons_append, List.headD_cons, hds d List.mem_cons_self] at hx
    cases hx

theorem strtol_spelled {n : Int} (hlong : 2147483647 ≤ longMax) (ht : Spelled (.int n) t) (hc : Stop c) :
    (BitVec.ofNat 32 (strtol longMax (t ++ c :: rest))).toInt = n := by
  have hint {m : Nat} (hm : m < 2147483648) : (BitVec.ofNat 32 (min longMax m)).toInt = m := by
    rw [Nat.min_eq_right (by omega), BitVec.toInt_eq_toNat_of_lt, BitVec.toNat_ofNat]
    · omega
    · rw [BitVec.toNat_ofNat]
      omega
  unfold strtol
  cases ht with
  | decimal hfirst hds hmax =>
    rw [List.cons_append, List.headD_cons, if_neg hfirst, ← List.cons_append,
      takeWhile_stop (fun d hd => digitOf_ten_of_isdigit (hds d hd)) (hc.digitOf 10), hint hmax]
  | @octal ds hds hmax =>
    have hdigits := fun d hd => isdigit_of_digitOf_eight (hds d hd)
    have hx := @headD_digits c rest _ 'x'.toUInt8 hdigits hc rfl (by decide)
    have hcap := @headD_digits c rest _ 'X'.toUInt8 hdigits hc rfl (by decide)
    have hzero : digitOf 8 '0'.toUInt8 = true := rfl
    rw [List.cons_append, List.headD_cons, if_pos rfl, List.tail_cons, if_neg fun h => h.1.elim hx hcap,
      ← List.cons_append, takeWhile_stop (List.forall_mem_cons.mpr ⟨hzero, hds⟩) (hc.digitOf 8)]
    -- the leading zero adds nothing
    exact hint hmax
  | @hexadecimal d ds hds hmax =>
    have hd := hds d List.mem_cons_self
    simp only [List.cons_append, List.headD_cons, List.tail_cons, true_or, true_and, if_true, hd]
    rw [← List.cons_append,
      takeWhile_stop (fun e he => digitOf_sixteen_of_isxdigit (hds e he)) (hc.digitOf 16), hint hmax]

theorem extractInt_digit {q : List UInt8} (h : isdigit c = true) :
    extractInt longMax (':'.toUInt8 :: c :: q) =
      .ok ((BitVec.ofNat 32 (strtol longMax (c :: q))).toInt,
        (if c = '0'.toUInt8 ∧ q.headD 0 = 'x'.toUInt8 then q.tail else c :: q).dropWhile isxdigit) := by
  simp [extractInt, h]

theorem extractInt_spelled {n : Int} (hlong : 2147483647 ≤ longMax) (ht : Spelled (.int n) t)
    (hc : Stop c) : extractInt longMax (':'.toUInt8 :: (t ++ c :: rest)) = .ok (n, c :: rest) := by
  have hnum := @strtol_spelled _ _ rest _ _ hlong ht hc
  cases ht with
  | decimal hfirst hds hmax =>
    rw [List.cons_append, extractInt_digit (hds _ List.mem_cons_self), if_neg fun h => hfirst h.1,
      ← List.cons_append, hnum, dropWhile_stop (fun d hd => isxdigit_of_isdigit (hds d hd)) hc.isxdigit]
  | octal hds hmax =>
    have hdigits := fun d hd => isdigit_of_digitOf_eight (hds d hd)
    have hx := @headD_digits c rest _ 'x'.toUInt8 hdigits hc rfl (by decide)
    have hzero : isxdigit '0'.toUInt8 = true := rfl
    rw [List.cons_append, extractInt_digit rfl, if_neg fun h => hx h.2, ← List.cons_append, hnum,
      dropWhile_stop (List.forall_mem_cons.mpr ⟨hzero, fun d hd => isxdigit_of_isdigit (hdigits d hd)⟩)
        hc.isxdigit]
  | hexadecimal hds hmax =>
    rw [List.cons_append, extractInt_digit rfl, if_pos ⟨rfl, rfl⟩, ← List.cons_append, hnum,
      List.cons_append, List.tail_cons, dropWhile_stop hds hc.isxdigit]

theorem extractStr_spelled {w : List UInt8} (ht : Spelled (.str w) t) (hc : Stop c) :
    extractStr (':'.toUInt8 :: (t ++ c :: rest)) = .ok (w, c :: rest) := by
  unfold extractStr
  cases ht with
  | @bare d s hfirst hprint hs =>
    have hmem : ∀ e ∈ d :: s, (e ≠ 0 && e ≠ ':'.toUInt8) = true := fun e he => by
      simp [ne_of_mem_of_not_mem he hs.1, ne_of_mem_of_not_mem he hs.2]
    have hstop : (c ≠ 0 && c ≠ ':'.toUInt8) = false := by
      rcases hc with rfl | rfl <;> rfl
    have htake := @takeWhile_stop c _ rest _ hmem hstop
    simp only [List.headD_cons, ne_eq, not_true_eq_false, if_false, List.tail_cons, List.cons_append,
      hfirst, hprint, Bool.true_eq_false]
    rw [List.cons_append] at htake
    rw [htake, ← List.cons_append, List.drop_left]
  | quoted hprint hs =>
    have hmem : ∀ e ∈ w, (e ≠ 0 && e ≠ ']'.toUInt8) = true := fun e he => by
      simp [ne_of_mem_of_not_mem he hs.1, ne_of_mem_of_not_mem he hs.2]
    have hfirst : isprint ((w ++ ']'.toUInt8 :: c :: rest).headD 0) = true := by
      cases w with
      | nil => rfl
      | cons d w => exact hprint d rfl
    have htake := @takeWhile_stop ']'.toUInt8 _ (c :: rest) _ hmem rfl
    simp only [List.headD_cons, ne_eq, not_true_eq_false, if_false, List.tail_cons, List.cons_append,
      List.append_assoc, List.nil_append, if_true, hfirst, Bool.true_eq_false]
    rw [htake, List.drop_left, List.tail_cons]

end Read

/-! ## The parameters of an extension -/

section Params
variable {longMax : Nat} (defaultServerPort : Nat) {c : UInt8} {rest : List UInt8}

/-- A value is extracted, and then checked. -/
theorem read_spelled {param : Param} {arg : Arg} {t : List UInt8} (hlong : 2147483647 ≤ longMax)
    (ht : Spelled arg t) (hkind : param.isStr = arg.isStr) (hc : Stop c) :
    param.read longMax defaultServerPort (':'.toUInt8 :: (t ++ c :: rest)) =
      (param.check defaultServerPort arg).map (·, c :: rest) := by
  rw [Param.read, Param.extract, hkind]
  cases arg with
  | int n =>
    rw [extractInt_spelled hlong ht hc]
    rfl
  | str s =>
    rw [extractStr_spelled ht hc]
    rfl

/-- An empty string may be left out before another parameter. -/
theorem read_skipped {param : Param} (hkind : param.isStr = true) :
    param.read longMax defaultServerPort (':'.toUInt8 :: ':'.toUInt8 :: rest) =
      (param.check defaultServerPort (.str [])).map (·, ':'.toUInt8 :: rest) := by
  rw [Param.read, Param.extract, if_pos hkind]
  rfl

theorem Written.stop {args : List Arg} {texts : List UInt8} (hw : Written args texts) (hc : Stop c) :
    ∃ d q, Stop d ∧ texts ++ c :: rest = d :: q := by
  cases hw with
  | nil => exact ⟨c, rest, hc, rfl⟩
  | cons => exact ⟨':'.toUInt8, _, .inr rfl, rfl⟩
  | skipped => exact ⟨':'.toUInt8, _, .inr rfl, rfl⟩

/-- The value read first is checked before the others are read. -/
theorem readAll_check {param : Param} {params : List Param} {arg : Arg} {args : List Arg}
    {p q : List UInt8}
    (hread : param.read longMax defaultServerPort p = (param.check defaultServerPort arg).map (·, q))
    (hrest : readAll (params.map (Param.read longMax defaultServerPort)) q =
      (validate defaultServerPort params args).map (·, c :: rest)) :
    readAll ((param :: params).map (Param.read longMax defaultServerPort)) p =
      (validate defaultServerPort (param :: params) (arg :: args)).map (·, c :: rest) := by
  rw [List.map_cons, readAll, hread, validate]
  cases param.check defaultServerPort arg with
  | error e => rfl
  | ok arg =>
    simp only [Except.map, hrest]
    cases validate defaultServerPort params args <;> rfl

theorem readAll_written {params : List Param} {args : List Arg} {texts : List UInt8}
    (hlong : 2147483647 ≤ longMax) (hw : Written args texts)
    (hkinds : List.Forall₂ (fun param arg => param.isStr = arg.isStr) params args) (hc : Stop c) :
    readAll (params.map (Param.read longMax defaultServerPort)) (texts ++ c :: rest) =
      (validate defaultServerPort params args).map (·, c :: rest) := by
  induction hw generalizing params with
  | nil =>
    cases hkinds
    rfl
  | @cons a as t ts ht hts ih =>
    obtain ⟨d, q, hd, heq⟩ := @Written.stop c rest _ _ hts hc
    cases hkinds with
    | cons hkind hkinds =>
      have hread := @read_spelled _ defaultServerPort _ q _ _ _ hlong ht hkind hd
      rw [List.cons_append, List.append_assoc, heq]
      exact readAll_check defaultServerPort hread (heq ▸ ih hkinds)
  | @skipped a as ts hts ih =>
    obtain ⟨q, hq⟩ : ∃ q, ts = ':'.toUInt8 :: q := by
      cases hts with
      | cons => exact ⟨_, rfl⟩
      | skipped => exact ⟨_, rfl⟩
    subst hq
    cases hkinds with
    | cons hkind hkinds =>
      exact readAll_check defaultServerPort (read_skipped defaultServerPort hkind) (ih hkinds)

end Params

/-! ## The number of the first pin -/

section PinBase
variable {c : UInt8} {rest : List UInt8}

/-- `number`, from a value on. -/
def numberFrom (n : Nat) (digits : List UInt8) : Nat := digits.foldl (fun n c => 10 * n + digitValue c) n

theorem le_numberFrom (n : Nat) (digits : List UInt8) : n ≤ numberFrom n digits := by
  induction digits generalizing n with
  | nil => exact Nat.le_refl n
  | cons d digits ih => exact Nat.le_trans (by omega) (ih (10 * n + digitValue d))

theorem numberFrom_mod (m n : Nat) (digits : List UInt8) :
    numberFrom (n % m) digits % m = numberFrom n digits % m := by
  induction digits generalizing n with
  | nil => exact Nat.mod_mod n m
  | cons d digits ih =>
    have hstep : (10 * (n % m) + digitValue d) % m = (10 * n + digitValue d) % m := by
      simp [Nat.add_mod, Nat.mul_mod]
    calc numberFrom (10 * (n % m) + digitValue d) digits % m
      _ = numberFrom ((10 * n + digitValue d) % m) digits % m := by rw [← hstep, ih]
      _ = numberFrom (10 * n + digitValue d) digits % m := ih _

theorem pinBase_step (n : BitVec 32) {d : UInt8} (hd : isdigit d = true) :
    n * 10 + BitVec.ofNat 32 (d.toNat - 48) = BitVec.ofNat 32 (10 * n.toNat + digitValue d) := by
  apply BitVec.eq_of_toNat_eq
  rw [digitValue, if_pos hd, BitVec.toNat_add, BitVec.toNat_mul, BitVec.toNat_ofNat, BitVec.toNat_ofNat]
  change (n.toNat * 10 % 2 ^ 32 + (d.toNat - 48) % 2 ^ 32) % 2 ^ 32 = _
  omega

/-- Below 2^31 the number is read as it stands. -/
theorem readPinBase_digits {digits : List UInt8} (hdigits : ∀ d ∈ digits, isdigit d = true)
    (hc : Stop c) {n : Nat} (hmax : numberFrom n digits < 2147483648) :
    readPinBase (BitVec.ofNat 32 n) (digits ++ c :: rest) =
      .ok (BitVec.ofNat 32 (numberFrom n digits), c :: rest) := by
  induction digits generalizing n with
  | nil => rw [List.nil_append, readPinBase, if_pos hc.isdigit, numberFrom, List.foldl_nil]
  | cons d digits ih =>
    have hd := hdigits d List.mem_cons_self
    have hn : n < 2147483648 := Nat.lt_of_le_of_lt (le_numberFrom n (d :: digits)) hmax
    have htoNat : (BitVec.ofNat 32 n).toNat = n := by
      rw [BitVec.toNat_ofNat]
      omega
    have hsmall : ¬ BitVec.ofNat 32 n > 2147483647 := by
      rw [gt_iff_lt, BitVec.lt_def, htoNat]
      change ¬ 2147483647 < n
      omega
    rw [List.cons_append, readPinBase, if_neg (by simp [hd]), if_neg hsmall, pinBase_step _ hd, htoNat]
    exact ih (fun e he => hdigits e (List.mem_cons_of_mem _ he)) hmax

/-- What was read is the number modulo 2^32. -/
theorem readPinBase_ok {p q : List UInt8} {n m : BitVec 32} (h : readPinBase n p = .ok (m, q)) :
    ∃ digits, p = digits ++ q ∧ (∀ d ∈ digits, isdigit d = true) ∧
      m = BitVec.ofNat 32 (numberFrom n.toNat digits) ∧ isdigit (q.headD 0) = false := by
  induction p generalizing n with
  | nil =>
    cases h
    exact ⟨[], rfl, nofun, by simp [numberFrom], rfl⟩
  | cons c p ih =>
    rw [readPinBase] at h
    split at h
    · next hc =>
      cases h
      exact ⟨[], rfl, nofun, by simp [numberFrom], hc⟩
    · next hc =>
      split at h
      · cases h
      · obtain ⟨digits, rfl, hdigits, rfl, hq⟩ := ih h
        have hdigit : isdigit c = true := by simpa using hc
        refine ⟨c :: digits, rfl, List.forall_mem_cons.mpr ⟨hdigit, hdigits⟩, ?_, hq⟩
        rw [pinBase_step n hdigit, BitVec.toNat_ofNat]
        exact BitVec.eq_of_toNat_eq (numberFrom_mod (2 ^ 32) _ digits)

end PinBase

/-! ## The whole text -/

theorem extension_names : ∀ f ∈ extensionFunctions, ∀ c ∈ f.1, (c ≠ 0 && c ≠ ':'.toUInt8) = true := by
  decide +kernel

theorem extension_names_apart : extensionFunctions.Pairwise fun f g => f.1 ≠ g.1 := by
  decide +kernel

theorem find_extension {f : List UInt8 × Extension} (hf : f ∈ extensionFunctions) :
    extensionFunctions.find? (fun g => g.1 = f.1) = some f := by
  obtain ⟨before, after, heq⟩ := List.append_of_mem hf
  have hapart := extension_names_apart
  rw [heq, List.pairwise_append] at hapart
  have hbefore : before.find? (fun g => g.1 = f.1) = none :=
    List.find?_eq_none.mpr fun g hg => by simp [hapart.2.2 g hg f List.mem_cons_self]
  rw [heq, List.find?_append, hbefore, List.find?_cons_of_pos (by simp), Option.none_or]

/-- **A text that is well spelled calls the setup function of its extension with
the values that are spelled, or fails in the first that is out of range.** What
stands behind the last parameter is not looked at. -/
theorem extension_read_back {longMax defaultServerPort : Nat} {f : List UInt8 × Extension}
    {base texts rest : List UInt8} {args : List Arg} {c : UInt8} (hlong : 2147483647 ≤ longMax)
    (hf : f ∈ extensionFunctions) (hbase : ∀ d ∈ base, isdigit d = true)
    (hmin : 64 ≤ number 10 base) (hmax : number 10 base < 2147483648) (hw : Written args texts)
    (hkinds : List.Forall₂ (fun param arg => param.isStr = arg.isStr) f.2.params args)
    (hc : Stop c) :
    loadWPiExtension longMax defaultServerPort
        (f.1 ++ ':'.toUInt8 :: (base ++ (texts ++ c :: rest))) =
      (validate defaultServerPort f.2.params args).map (⟨f.2.setup, number 10 base, ·⟩) := by
  have hname := @takeWhile_stop ':'.toUInt8 f.1 (base ++ (texts ++ c :: rest)) _ (extension_names f hf) rfl
  obtain ⟨d, q, hd, hq⟩ := @Written.stop c rest _ _ hw hc
  have hpin : readPinBase 0 (base ++ d :: q) = .ok (BitVec.ofNat 32 (number 10 base), d :: q) :=
    readPinBase_digits hbase hd hmax
  have hbits : (BitVec.ofNat 32 (number 10 base)).toNat = number 10 base := by
    rw [BitVec.toNat_ofNat]
    omega
  have hsmall : ¬ BitVec.ofNat 32 (number 10 base) < 64 := by
    rw [BitVec.lt_def, hbits]
    exact Nat.not_lt.mpr hmin
  have hint : (BitVec.ofNat 32 (number 10 base)).toInt = number 10 base := by
    rw [BitVec.toInt_eq_toNat_of_lt (by omega), hbits]
  have hfirst : isdigit ((base ++ d :: q).headD 0) = true := by
    cases base with
    | nil => exact absurd hmin (by decide)
    | cons b base => exact hbase b List.mem_cons_self
  have hread := @readAll_written _ defaultServerPort _ rest _ _ _ hlong hw hkinds hc
  unfold loadWPiExtension
  simp only [hname, List.drop_left, List.headD_cons, List.tail_cons]
  rw [if_neg (by decide), hq, hfirst, if_neg (by decide), hpin]
  simp only [if_neg hsmall, find_extension hf, hint]
  rw [Extension.run, ← hq, hread]
  cases validate defaultServerPort f.2.params args <;> rfl

/-- An address in brackets, and the default port. -/
theorem extension_read_back_drcn :
    loadWPiExtension 2147483647 6124
        (ofText "drcn" ++ ':'.toUInt8 :: (ofText "100" ++ (ofText ":10:[::1]::pw" ++ [0]))) =
      .ok ⟨.drcSetupNet, 100, [.int 10, .str (ofText "::1"), .str (ofText "6124"), .str (ofText "pw")]⟩ :=
  have haddress : Spelled (.str (ofText "::1")) (ofText "[::1]") :=
    @Spelled.quoted (ofText "::1") (fun c hc => by cases hc; rfl) (by decide)
  have hpassword : Spelled (.str (ofText "pw")) (ofText "pw") :=
    @Spelled.bare 'p'.toUInt8 (ofText "w") (by decide) (by decide) (by decide)
  have hpins : Spelled (.int 10) (ofText "10") :=
    @Spelled.decimal '1'.toUInt8 (ofText "0") (by decide) (by decide +kernel) (by decide)
  have hwritten : Written [.int 10, .str (ofText "::1"), .str [], .str (ofText "pw")]
      (ofText ":10:[::1]::pw") :=
    .cons hpins (.cons haddress (.skipped (.cons hpassword .nil)))
  (@extension_read_back 2147483647 6124 (ofText "drcn", doExtensionDrcNet) (ofText "100") _ [] _ 0
    (by decide) (by simp [extensionFunctions]) (by decide +kernel) (by decide) (by decide) hwritten
    (.cons rfl (.cons rfl (.cons rfl (.cons rfl .nil)))) (.inl rfl)).trans (by decide +kernel)

/-! ## Any text -/

/-- What can stand between two colons, or in brackets. -/
def OneWord (s : List UInt8) : Prop := 0 ∉ s ∧ (':'.toUInt8 ∉ s ∨ ']'.toUInt8 ∉ s)

def Allows : Param → Arg → Prop
  | .any, .int n => -2147483648 ≤ n ∧ n ≤ 2147483647
  | .int lo hi _, .int n => lo ≤ n ∧ n ≤ hi
  | .str, .str s => OneWord s
  | .required _, .str s | .port, .str s => s ≠ [] ∧ OneWord s
  | _, _ => False

section Accepted
variable {longMax defaultServerPort : Nat}

theorem extractInt_ok {p q : List UInt8} {n : Int} (h : extractInt longMax p = .ok (n, q)) :
    -2147483648 ≤ n ∧ n ≤ 2147483647 := by
  unfold extractInt at h
  split at h
  · cases h
  · dsimp only at h
    split at h
    · cases h
    · cases h
      have hlo := BitVec.le_toInt (BitVec.ofNat 32 (strtol longMax p.tail))
      have hhi := BitVec.toInt_lt (x := BitVec.ofNat 32 (strtol longMax p.tail))
      exact ⟨hlo, Int.le_sub_one_of_lt hhi⟩

theorem extractStr_ok {p q s : List UInt8} (h : extractStr p = .ok (s, q)) : OneWord s := by
  have hword (p : List UInt8) (stop : UInt8) :
      0 ∉ p.takeWhile (fun c => c ≠ 0 && c ≠ stop) ∧ stop ∉ p.takeWhile (fun c => c ≠ 0 && c ≠ stop) :=
    ⟨fun hm => by simpa using List.mem_takeWhile_imp hm, fun hm => by simpa using List.mem_takeWhile_imp hm⟩
  unfold extractStr at h
  by_cases hcolon : p.headD 0 ≠ ':'.toUInt8
  · rw [if_pos hcolon] at h
    cases h
  · rw [if_neg hcolon] at h
    by_cases hquoted : p.tail.headD 0 = '['.toUInt8
    · simp only [hquoted, if_true] at h
      split at h
      · cases h
      · obtain ⟨rfl, -⟩ := Prod.mk.inj (Except.ok.inj h)
        exact ⟨(hword _ _).1, .inr (hword _ _).2⟩
    · simp only [hquoted, if_false] at h
      split at h
      · cases h
      · obtain ⟨rfl, -⟩ := Prod.mk.inj (Except.ok.inj h)
        exact ⟨(hword _ _).1, .inl (hword _ _).2⟩

theorem oneWord_decimal (n : Nat) : Common.File.decimal n ≠ [] ∧ OneWord (Common.File.decimal n) := by
  have hno {c : UInt8} (hc : isdigit c = false) : c ∉ Common.File.decimal n := fun hm => by
    rw [Common.MaskFile.decimal_digits n c hm] at hc
    cases hc
  exact ⟨Common.MaskFile.decimal_ne_nil n, hno rfl, .inl (hno rfl)⟩

theorem check_allows {param : Param} {raw arg : Arg} (hkind : param.isStr = raw.isStr)
    (hint : ∀ n, raw = .int n → -2147483648 ≤ n ∧ n ≤ 2147483647)
    (hstr : ∀ s, raw = .str s → OneWord s)
    (h : param.check defaultServerPort raw = .ok arg) : Allows param arg := by
  cases raw with
  | int n =>
    cases param with
    | any =>
      cases h
      exact hint n rfl
    | int lo hi error =>
      rw [Param.check] at h
      split at h
      · cases h
      · cases h
        show lo ≤ n ∧ n ≤ hi
        omega
    | str | required | port => cases hkind
  | str s =>
    have hs := hstr s rfl
    cases param with
    | str =>
      cases h
      exact hs
    | required error =>
      rw [Param.check] at h
      split at h
      · cases h
      · next hne =>
        cases h
        exact ⟨hne, hs⟩
    | port =>
      cases h
      show (if s = [] then _ else s) ≠ [] ∧ OneWord (if s = [] then _ else s)
      split
      · exact oneWord_decimal defaultServerPort
      · next hne => exact ⟨hne, hs⟩
    | any | int => cases hkind

theorem extract_ok {param : Param} {p q : List UInt8} {raw : Arg}
    (h : param.extract longMax p = .ok (raw, q)) : param.isStr = raw.isStr ∧
      (∀ n, raw = .int n → -2147483648 ≤ n ∧ n ≤ 2147483647) ∧ ∀ s, raw = .str s → OneWord s := by
  unfold Param.extract at h
  split at h
  · next hkind =>
    obtain ⟨s, hs, rfl⟩ := map_ok h
    refine ⟨hkind, nofun, fun t ht => ?_⟩
    cases ht
    exact extractStr_ok hs
  · next hkind =>
    obtain ⟨n, hn, rfl⟩ := map_ok h
    refine ⟨Bool.eq_false_iff.mpr hkind, fun m hm => ?_, nofun⟩
    cases hm
    exact extractInt_ok hn

theorem read_allows {param : Param} {p q : List UInt8} {arg : Arg}
    (h : param.read longMax defaultServerPort p = .ok (arg, q)) : Allows param arg := by
  obtain ⟨raw, hraw, hcheck⟩ := bind_ok h
  obtain ⟨hkind, hint, hstr⟩ := extract_ok hraw
  exact check_allows hkind hint hstr hcheck

/-- The name of an extension ends at the end of the text, or before a colon. -/
theorem name_colon (text : List UInt8) {name : List UInt8}
    (hname : name = text.takeWhile fun c => c ≠ 0 && c ≠ ':'.toUInt8)
    (h : (text.drop name.length).headD 0 ≠ 0) :
    text = name ++ ':'.toUInt8 :: (text.drop name.length).tail := by
  have hsplit : name ++ text.drop name.length = text :=
    List.prefix_iff_eq_append.mp (hname ▸ List.takeWhile_prefix _)
  have hwhile : text.drop name.length = text.dropWhile fun c => c ≠ 0 && c ≠ ':'.toUInt8 := by
    have hboth := @List.takeWhile_append_dropWhile _ (fun c => c ≠ 0 && c ≠ ':'.toUInt8) text
    exact List.append_cancel_left (hsplit.trans (hname ▸ hboth.symm))
  have hhead := List.head?_dropWhile_not (fun c => c ≠ 0 && c ≠ ':'.toUInt8) text
  rw [← hwhile] at hhead
  generalize text.drop name.length = q at *
  cases q with
  | nil => exact absurd rfl h
  | cons c q =>
    have hc : c = ':'.toUInt8 := by
      have hne : c ≠ 0 := h
      simpa [hne] using hhead
    rw [← hsplit, hc, List.tail_cons]

/-- What a text is that a setup function was called for. -/
structure Accepted (text : List UInt8) (s : Setup) (f : List UInt8 × Extension) (base rest : List UInt8) :
    Prop where
  known : f ∈ extensionFunctions
  text : text = f.1 ++ ':'.toUInt8 :: (base ++ rest)
  digits : base ≠ [] ∧ (∀ d ∈ base, isdigit d = true) ∧ isdigit (rest.headD 0) = false
  function : s.function = f.2.setup
  -- The check for a base that is too large comes too early to keep it from wrapping
  pinBase : s.pinBase = (BitVec.ofNat 32 (number 10 base)).toInt
  minimum : 64 ≤ number 10 base % 2 ^ 32
  args : List.Forall₂ Allows f.2.params s.args

/-- **A setup function is only called with parameters in range**, and with the
pin base that the text has, modulo 2^32. -/
theorem accepted_in_range {longMax defaultServerPort : Nat} {text : List UInt8} {s : Setup}
    (h : loadWPiExtension longMax defaultServerPort text = .ok s) :
    ∃ f base rest, Accepted text s f base rest := by
  unfold loadWPiExtension at h
  set name := text.takeWhile fun c => c ≠ 0 && c ≠ ':'.toUInt8 with hname
  by_cases hcolon : (text.drop name.length).headD 0 = 0
  · rw [if_pos hcolon] at h
    cases h
  rw [if_neg hcolon] at h
  by_cases hdigit : isdigit ((text.drop name.length).tail.headD 0) = false
  · rw [if_pos hdigit] at h
    cases h
  rw [if_neg hdigit] at h
  split at h
  · cases h
  next n rest hpin =>
  obtain ⟨base, htail, hbase, rfl, hrest⟩ := readPinBase_ok hpin
  split at h
  · cases h
  next hmin =>
  split at h
  · next f hf =>
    have hfound := List.find?_some hf
    unfold Extension.run at h
    cases hargs : readAll (f.params.map (Param.read longMax defaultServerPort)) rest with
    | error e =>
      rw [hargs] at h
      cases h
    | ok r =>
      rw [hargs] at h
      cases h
      refine ⟨_, base, rest, List.mem_of_find?_eq_some hf, ?_, ⟨?_, hbase, hrest⟩, rfl, rfl, ?_, ?_⟩
      · rw [of_decide_eq_true hfound, ← htail]
        exact name_colon text hname hcolon
      · rintro rfl
        rw [htail] at hdigit
        exact hdigit hrest
      · rw [BitVec.lt_def, BitVec.toNat_ofNat] at hmin
        exact Nat.not_lt.mp hmin
      · have hall := readAll_ok hargs
        rw [List.forall₂_map_left_iff] at hall
        exact hall.imp fun param arg ⟨p, q, hread⟩ => read_allows hread
  · cases h

/-- The expander has an address in range, and a pin base of 2^32 + 64. -/
theorem accepted_in_range_wrapped :
    ∃ f base rest, Accepted (ofText "mcp23017:4294967360:0x20" ++ [0])
      ⟨.mcp23017Setup, 64, [.int 32]⟩ f base rest :=
  @accepted_in_range 2147483647 6124 _ _ (by decide +kernel)

end Accepted

/-! ## The end of the text -/

/-- Every bracket that opens is closed. -/
def closed : List UInt8 → Bool
  | [] => true
  | c :: t => (c ≠ '['.toUInt8 || ']'.toUInt8 ∈ t) && closed t

section Own
variable {longMax : Nat} {text t after after' : List UInt8}

/-- Two pointers to one place in a text, where what follows the text differs. -/
def Own (text after after' : List UInt8) (p q : List UInt8) : Prop :=
  ∃ t, t <:+ text ∧ p = t ++ 0 :: after ∧ q = t ++ 0 :: after'

theorem headD_end (t after : List UInt8) : (t ++ 0 :: after).headD 0 = t.headD 0 := by
  cases t <;> rfl

theorem takeWhile_end {p : UInt8 → Bool} (h : p 0 = false) (t after : List UInt8) :
    (t ++ 0 :: after).takeWhile p = t.takeWhile p := by
  induction t with
  | nil => simp [h]
  | cons c t ih => rw [List.cons_append, List.takeWhile_cons, List.takeWhile_cons, ih]

theorem dropWhile_end {p : UInt8 → Bool} (h : p 0 = false) (t after : List UInt8) :
    (t ++ 0 :: after).dropWhile p = t.dropWhile p ++ 0 :: after := by
  induction t with
  | nil => simp [h]
  | cons c t ih =>
    rw [List.cons_append, List.dropWhile_cons, List.dropWhile_cons, ih]
    split <;> rfl

theorem tail_end (h : t.headD 0 ≠ 0) : (t ++ 0 :: after).tail = t.tail ++ 0 :: after := by
  cases t with
  | nil => exact absurd rfl h
  | cons c t => rfl

theorem strtol_end (t after : List UInt8) : strtol longMax (t ++ 0 :: after) = strtol longMax t := by
  unfold strtol
  rw [headD_end, takeWhile_end rfl, takeWhile_end rfl]
  by_cases hzero : t.headD 0 = '0'.toUInt8
  · rw [tail_end (by rw [hzero]; decide), headD_end]
    by_cases hx : t.tail.headD 0 = 'x'.toUInt8 ∨ t.tail.headD 0 = 'X'.toUInt8
    · have hne : t.tail.headD 0 ≠ 0 := by
        rcases hx with h | h
        · rw [h]
          decide
        · rw [h]
          decide
      rw [tail_end hne, headD_end, takeWhile_end rfl]
    · simp only [hx, false_and, if_false]
  · simp only [hzero, if_false]

theorem own_end (h : t <:+ text) : Own text after after' (t ++ 0 :: after) (t ++ 0 :: after') :=
  ⟨t, h, rfl, rfl⟩

theorem extractInt_alike (h : t <:+ text) : Alike (Own text after after')
    (extractInt longMax (t ++ 0 :: after)) (extractInt longMax (t ++ 0 :: after')) := by
  unfold extractInt
  rw [headD_end, headD_end]
  by_cases hcolon : t.headD 0 = ':'.toUInt8
  · have hne : t.headD 0 ≠ 0 := by
      rw [hcolon]
      decide
    simp only [hcolon, ne_eq, not_true_eq_false, if_false, tail_end hne, headD_end, strtol_end]
    by_cases hdigit : isdigit (t.tail.headD 0) = true
    · simp only [hdigit, Bool.true_eq_false, if_false]
      have htail : t.tail.headD 0 ≠ 0 := fun h0 => by
        rw [h0] at hdigit
        cases hdigit
      rw [tail_end htail, tail_end htail, headD_end, headD_end]
      have hsuffix : t.tail.dropWhile isxdigit <:+ text :=
        ((List.dropWhile_suffix _).trans (List.tail_suffix _)).trans h
      by_cases hx : t.tail.headD 0 = '0'.toUInt8 ∧ t.tail.tail.headD 0 = 'x'.toUInt8
      · have hmore : t.tail.tail.headD 0 ≠ 0 := by
          rw [hx.2]
          decide
        rw [if_pos hx, if_pos hx, tail_end hmore, tail_end hmore, dropWhile_end rfl, dropWhile_end rfl]
        exact .ok _ (own_end ((((List.dropWhile_suffix _).trans (List.tail_suffix _)).trans
          (List.tail_suffix _)).trans ((List.tail_suffix _).trans h)))
      · rw [if_neg hx, if_neg hx, dropWhile_end rfl, dropWhile_end rfl]
        exact .ok _ (own_end hsuffix)
    · simp only [hdigit, if_true]
      exact .error _
  · rw [if_pos hcolon, if_pos hcolon]
    exact .error _

theorem closed_suffix (hclosed : closed text = true) (h : t <:+ text) : closed t = true := by
  obtain ⟨u, rfl⟩ := h
  induction u with
  | nil => exact hclosed
  | cons c u ih => exact ih (Bool.and_eq_true_iff.mp hclosed).2

theorem drop_word (p : UInt8 → Bool) (t after : List UInt8) :
    (t ++ 0 :: after).drop (t.takeWhile p).length = t.drop (t.takeWhile p).length ++ 0 :: after :=
  List.drop_append_of_le_length (List.takeWhile_prefix p).length_le

/-- The word in brackets ends before a bracket, so there is something to skip. -/
theorem quoted_rest (h : ']'.toUInt8 ∈ t) :
    (t.drop (t.takeWhile fun c => c ≠ 0 && c ≠ ']'.toUInt8).length ++ 0 :: after).tail =
      (t.drop (t.takeWhile fun c => c ≠ 0 && c ≠ ']'.toUInt8).length).tail ++ 0 :: after := by
  cases hd : t.drop (t.takeWhile fun c => c ≠ 0 && c ≠ ']'.toUInt8).length with
  | nil =>
    have hall : t.takeWhile (fun c => c ≠ 0 && c ≠ ']'.toUInt8) = t :=
      (List.takeWhile_prefix _).eq_of_length_le (List.drop_eq_nil_iff.mp hd)
    exact absurd (List.mem_takeWhile_imp (hall.symm ▸ h)) (by decide)
  | cons c t => rfl

theorem extractStr_alike (hclosed : closed text = true) (h : t <:+ text) : Alike (Own text after after')
    (extractStr (t ++ 0 :: after)) (extractStr (t ++ 0 :: after')) := by
  unfold extractStr
  rw [headD_end, headD_end]
  by_cases hcolon : t.headD 0 = ':'.toUInt8
  · have hne : t.headD 0 ≠ 0 := by
      rw [hcolon]
      decide
    have hsuffix : t.tail <:+ text := (List.tail_suffix t).trans h
    simp only [hcolon, ne_eq, not_true_eq_false, if_false, tail_end hne, headD_end]
    by_cases hquoted : t.tail.headD 0 = '['.toUInt8
    · have htail : t.tail.headD 0 ≠ 0 := by
        rw [hquoted]
        decide
      have hclose : ']'.toUInt8 ∈ t.tail.tail := by
        cases ht : t.tail with
        | nil => exact absurd ht fun h0 => htail (by rw [h0]; rfl)
        | cons c q =>
          rw [ht] at hquoted hsuffix
          have hq := (Bool.and_eq_true_iff.mp (closed_suffix hclosed hsuffix)).1
          have hc : c = '['.toUInt8 := hquoted
          simpa [hc] using hq
      simp only [hquoted, if_true, tail_end htail, headD_end]
      split
      · exact .error _
      · rw [takeWhile_end rfl, takeWhile_end rfl, drop_word, drop_word, quoted_rest hclose,
          quoted_rest hclose]
        exact .ok _ (own_end ((List.tail_suffix _).trans
          ((List.drop_suffix _ _).trans ((List.tail_suffix _).trans hsuffix))))
    · simp only [hquoted, if_false, headD_end]
      split
      · exact .error _
      · rw [takeWhile_end rfl, takeWhile_end rfl, drop_word, drop_word]
        exact .ok _ (own_end ((List.drop_suffix _ _).trans hsuffix))
  · rw [if_pos hcolon, if_pos hcolon]
    exact .error _

theorem read_alike {defaultServerPort : Nat} (hclosed : closed text = true) (param : Param) (p q : List UInt8)
    (h : Own text after after' p q) : Alike (Own text after after')
      (param.read longMax defaultServerPort p) (param.read longMax defaultServerPort q) := by
  obtain ⟨t, ht, rfl, rfl⟩ := h
  refine Alike.bind ?_ _
  unfold Param.extract
  split
  · exact (extractStr_alike hclosed ht).map _
  · exact (extractInt_alike ht).map _

theorem readPinBase_alike (n : BitVec 32) (h : t <:+ text) : Alike (Own text after after')
    (readPinBase n (t ++ 0 :: after)) (readPinBase n (t ++ 0 :: after')) := by
  induction t generalizing n with
  | nil =>
    have hnul : isdigit 0 = false := rfl
    rw [List.nil_append, List.nil_append, readPinBase, readPinBase, if_pos hnul, if_pos hnul]
    exact .ok n (own_end h)
  | cons c t ih =>
    rw [List.cons_append, List.cons_append, readPinBase, readPinBase]
    split
    · exact .ok n (own_end h)
    · split
      · exact .error _
      · exact ih _ ((List.suffix_cons c t).trans h)

end Own

/-- **A text is read up to its end and no further**, where every bracket that
opens is closed: what stands in memory behind it makes no difference. -/
theorem own_text_only {longMax defaultServerPort : Nat} {text : List UInt8} (hclosed : closed text = true)
    (after after' : List UInt8) :
    loadWPiExtension longMax defaultServerPort (text ++ 0 :: after) =
      loadWPiExtension longMax defaultServerPort (text ++ 0 :: after') := by
  unfold loadWPiExtension
  rw [takeWhile_end rfl, takeWhile_end rfl]
  dsimp only
  rw [drop_word, drop_word, headD_end, headD_end]
  set p := text.drop (text.takeWhile fun c => c ≠ 0 && c ≠ ':'.toUInt8).length with hp
  by_cases hcolon : p.headD 0 = 0
  · rw [if_pos hcolon, if_pos hcolon]
  rw [if_neg hcolon, if_neg hcolon, tail_end hcolon, tail_end hcolon, headD_end, headD_end]
  by_cases hdigit : isdigit (p.tail.headD 0) = false
  · rw [if_pos hdigit, if_pos hdigit]
  rw [if_neg hdigit, if_neg hdigit]
  have hsuffix : p.tail <:+ text := (List.tail_suffix p).trans (List.drop_suffix _ _)
  have hpin := @readPinBase_alike text p.tail after after' 0 hsuffix
  generalize readPinBase 0 (p.tail ++ 0 :: after) = x, readPinBase 0 (p.tail ++ 0 :: after') = y at hpin ⊢
  cases hpin with
  | error e => rfl
  | @ok n q q' hq =>
    dsimp only
    split
    · rfl
    · split
      · exact (readAll_alike (fun r hr => by
          obtain ⟨param, -, rfl⟩ := List.mem_map.mp hr
          exact read_alike hclosed param) hq).map_eq _
      · rfl

theorem own_text_only_drcs :
    loadWPiExtension 2147483647 6124 (ofText "drcs:100:10:[/dev/ttyS0]" ++ 0 :: ofText ":9600") =
      loadWPiExtension 2147483647 6124 (ofText "drcs:100:10:[/dev/ttyS0]" ++ 0 :: []) :=
  own_text_only (by decide +kernel) _ _

/-- Where the bracket is not closed, what stands behind the text is read. -/
example :
    loadWPiExtension 2147483647 6124 (ofText "drcs:100:10:[/dev/ttyS0" ++ 0 :: ofText ":9600") =
        .ok ⟨.drcSetupSerial, 100, [.int 10, .str (ofText "/dev/ttyS0"), .int 9600]⟩ ∧
      loadWPiExtension 2147483647 6124 (ofText "drcs:100:10:[/dev/ttyS0" ++ 0 :: []) =
        .error .colonExpected := by
  decide +kernel

end SmartPrince.Wiring.ExtensionSoundness
