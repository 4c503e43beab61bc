import SmartPrince.Common.File

/-! # How far `mystrftime` reads, and how much it writes

The loop cuts the format string into tokens. A specifier without a value takes
the byte behind it along; where that is the NUL, the loop goes on behind it. -/
namespace SmartPrince.Common.StrftimeBounds
open SmartPrince.Lib.CString SmartPrince.Common.File

/-! ## Tokens -/

/-- What one turn of the loop reads. -/
inductive Token where
  | copied (c : UInt8)
  | code (d : UInt8)
  | skipped (d e : UInt8)  -- a specifier without a value, and the byte behind it
  deriving DecidableEq, Repr

def Token.chars : Token → List UInt8
  | .copied c => [c]
  | .code d => ['%'.toUInt8, d]
  | .skipped d e => ['%'.toUInt8, d, e]

section Bounds
variable (cnt : Context) (filename : Option (List UInt8)) (sqltype : Int)

def Token.Valid : Token → Prop
  | .copied c => c ≠ '%'.toUInt8
  | .code d => specifier cnt filename sqltype d ≠ .absent
  | .skipped d _ => specifier cnt filename sqltype d = .absent

instance : DecidablePred (Token.Valid cnt filename sqltype)
  | .copied c => inferInstanceAs (Decidable (c ≠ '%'.toUInt8))
  | .code d => inferInstanceAs (Decidable (specifier cnt filename sqltype d ≠ .absent))
  | .skipped d _ => inferInstanceAs (Decidable (specifier cnt filename sqltype d = .absent))

def Token.text : Token → List UInt8
  | .copied c => [c]
  | .code d => expansion cnt filename sqltype d
  | .skipped _ e => [e]

/-- Nothing behind the NUL is read, and `formatstring` has room for what is
written into it, its NUL included. -/
structure Contained (fmt behind : List UInt8) : Prop where
  read : (expand cnt filename sqltype (fmt ++ 0 :: behind)).read ≤ fmt.length + 1
  fits : (expand cnt filename sqltype (fmt ++ 0 :: behind)).formatstring.length + 1 ≤ pathMax

/-- The format string is cut into tokens, with at most a lone `%` at its end,
and what they are replaced by fits. -/
def Fits (fmt : List UInt8) : Prop :=
  ∃ (ts : List Token) (tail : List UInt8),
    (∀ t ∈ ts, t.Valid cnt filename sqltype) ∧ (tail = [] ∨ tail = ['%'.toUInt8]) ∧
      fmt = ts.flatMap Token.chars ++ tail ∧
      (ts.flatMap (Token.text cnt filename sqltype) ++ tail).length < pathMax

variable {cnt filename sqltype}

theorem expand_token {t : Token} (ht : t.Valid cnt filename sqltype) (h0 : 0 ∉ t.chars)
    (buf : List UInt8) :
    expand cnt filename sqltype (t.chars ++ buf) =
      (expand cnt filename sqltype buf).after (t.text cnt filename sqltype) t.chars.length := by
  cases t with
  | copied c => exact expand_literal (fun h => h0 (h ▸ List.mem_cons_self)) ht
  | code d =>
    have hd : d ≠ 0 := fun h => h0 (h ▸ List.mem_cons_of_mem _ List.mem_cons_self)
    exact expand_code hd ht
  | skipped d e => exact expand_absent ht e

theorem expand_tokens {ts : List Token} (ht : ∀ t ∈ ts, t.Valid cnt filename sqltype)
    (h0 : 0 ∉ ts.flatMap Token.chars) (buf : List UInt8) :
    expand cnt filename sqltype (ts.flatMap Token.chars ++ buf) =
      (expand cnt filename sqltype buf).after (ts.flatMap (Token.text cnt filename sqltype))
        (ts.flatMap Token.chars).length := by
  induction ts with
  | nil => simp [Expansion.after]
  | cons t ts ih =>
    rw [List.flatMap_cons, List.mem_append, not_or] at h0
    rw [List.flatMap_cons, List.flatMap_cons, List.append_assoc,
      expand_token (ht t List.mem_cons_self) h0.1,
      ih (fun t hm => ht t (List.mem_cons_of_mem _ hm)) h0.2]
    simp [Expansion.after, Nat.add_assoc]

/-- What is left when no token is left: nothing, or a `%` that nothing follows,
or a specifier without a value. -/
inductive Tail (cnt : Context) (filename : Option (List UInt8)) (sqltype : Int) :
    List UInt8 → Prop
  | nil : Tail cnt filename sqltype []
  | percent : Tail cnt filename sqltype ['%'.toUInt8]
  | absent (d : UInt8) (h : specifier cnt filename sqltype d = .absent) :
      Tail cnt filename sqltype ['%'.toUInt8, d]

def Cut (cnt : Context) (filename : Option (List UInt8)) (sqltype : Int)
    (fmt : List UInt8) : Prop :=
  ∃ (ts : List Token) (tail : List UInt8), (∀ t ∈ ts, t.Valid cnt filename sqltype) ∧
    Tail cnt filename sqltype tail ∧ fmt = ts.flatMap Token.chars ++ tail

theorem Cut.cons {t : Token} {buf : List UInt8} (ht : t.Valid cnt filename sqltype)
    (h : Cut cnt filename sqltype buf) : Cut cnt filename sqltype (t.chars ++ buf) := by
  obtain ⟨ts, tail, hts, htail, rfl⟩ := h
  refine ⟨t :: ts, tail, ?_, htail, by rw [List.flatMap_cons, List.append_assoc]⟩
  intro u hu
  cases hu with
  | head => exact ht
  | tail _ hu => exact hts u hu

theorem cut_exists (cnt : Context) (filename : Option (List UInt8)) (sqltype : Int)
    (fmt : List UInt8) : Cut cnt filename sqltype fmt := by
  match fmt with
  | [] => exact ⟨[], [], nofun, .nil, rfl⟩
  | c :: buf =>
    by_cases hc : c = '%'.toUInt8
    · subst hc
      match buf with
      | [] => exact ⟨[], _, nofun, .percent, rfl⟩
      | d :: buf =>
        by_cases hd : specifier cnt filename sqltype d = .absent
        · match buf with
          | [] => exact ⟨[], _, nofun, .absent d hd, rfl⟩
          | e :: buf => exact Cut.cons (t := .skipped d e) hd (cut_exists cnt filename sqltype buf)
        · exact Cut.cons (t := .code d) hd (cut_exists cnt filename sqltype buf)
    · exact Cut.cons (t := .copied c) hc (cut_exists cnt filename sqltype buf)

theorem read_pos (buf : List UInt8) : 1 ≤ (expand cnt filename sqltype buf).read := by
  have hafter (e : Expansion) (w : List UInt8) (n : Nat) : 1 ≤ (e.after w (n + 1)).read :=
    Nat.le_add_right_of_le (Nat.le_add_left 1 n)
  rw [expand.eq_def]
  split
  · exact Nat.le_refl 1
  · split
    · exact Nat.le_refl 1
    · split
      · split
        · exact Nat.le_succ 1
        · split
          · exact Nat.le_succ 1
          · split
            · exact hafter ..
            · exact hafter ..
            · split
              · exact hafter ..
              · exact hafter ..
      · exact hafter ..

/-- A specifier without a value takes the NUL along: the loop goes on behind it. -/
theorem read_absent {d : UInt8} (hd : specifier cnt filename sqltype d = .absent)
    (behind : List UInt8) :
    4 ≤ (expand cnt filename sqltype ('%'.toUInt8 :: d :: 0 :: behind)).read := by
  rw [expand_absent hd]
  exact Nat.add_le_add_left (read_pos behind) 3

theorem expand_tail {tail : List UInt8} (ht : tail = [] ∨ tail = ['%'.toUInt8])
    (behind : List UInt8) :
    expand cnt filename sqltype (tail ++ 0 :: behind) = ⟨tail, tail.length + 1⟩ := by
  cases ht with
  | inl h =>
    subst h
    exact expand_nul
  | inr h =>
    subst h
    exact expand_percent_nul

/-- A format string that ends with a token, or with a `%` alone, is read up to its NUL. -/
theorem expand_fmt {ts : List Token} {tail : List UInt8}
    (hts : ∀ t ∈ ts, t.Valid cnt filename sqltype) (ht : tail = [] ∨ tail = ['%'.toUInt8])
    (h0 : 0 ∉ ts.flatMap Token.chars) (behind : List UInt8) :
    expand cnt filename sqltype ((ts.flatMap Token.chars ++ tail) ++ 0 :: behind) =
      ⟨ts.flatMap (Token.text cnt filename sqltype) ++ tail,
        (ts.flatMap Token.chars ++ tail).length + 1⟩ := by
  rw [List.append_assoc, expand_tokens hts h0, expand_tail ht, List.length_append]
  rfl

/-- **Whatever follows the format string, its NUL is the last byte that is read
and the expansion fits, exactly if no specifier without a value ends it and the
tokens before are replaced by less than `PATH_MAX` bytes.** -/
theorem mystrftime_contained_iff {fmt : List UInt8} (h0 : 0 ∉ fmt) (behind : List UInt8) :
    Contained cnt filename sqltype fmt behind ↔ Fits cnt filename sqltype fmt := by
  constructor
  · intro hc
    obtain ⟨ts, tail, hts, htail, rfl⟩ :=
      cut_exists cnt filename sqltype fmt
    rw [List.mem_append, not_or] at h0
    have hends : tail = [] ∨ tail = ['%'.toUInt8] := by
      cases htail with
      | nil => exact .inl rfl
      | percent => exact .inr rfl
      | absent d hd =>
        have hread := hc.read
        rw [List.append_assoc, expand_tokens hts h0.1, List.length_append] at hread
        have hfar := read_absent hd behind
        simp only [Expansion.after, List.length_cons, List.length_nil, List.cons_append,
          List.nil_append] at hread
        omega
    have hfits := hc.fits
    rw [expand_fmt hts hends h0.1] at hfits
    exact ⟨ts, tail, hts, hends, rfl, hfits⟩
  · rintro ⟨ts, tail, hts, htail, rfl, hlt⟩
    rw [List.mem_append, not_or] at h0
    have he := expand_fmt hts htail h0.1 behind
    exact ⟨by rw [he], by rw [he]; exact hlt⟩

end Bounds

/-- A context in which nothing moved. -/
def still : Context where
  currentImage := {
    diffs := 0, shot := 0, totalLabels := 0
    location := { x := 0, y := 0, width := 0, height := 0 } }
  noise := 0
  threshold := 0
  eventNr := 5
  textEventString := []

/-- `%v-%q`, then a `%` alone. -/
theorem event_contained :
    Contained still none 0 [37, 118, 45, 37, 113, 37] [] :=
  (mystrftime_contained_iff (by decide) []).mpr
    ⟨[.code 118, .copied 45, .code 113], [37], by decide +kernel, .inr rfl, rfl,
      by decide +kernel⟩

/-- `%f` where there is no file name: the byte behind the NUL is read. -/
theorem absent_not_contained : ¬ Contained still none 0 [37, 102] [65] := by
  intro hc
  have hread := hc.read
  revert hread
  decide +kernel

end SmartPrince.Common.StrftimeBounds
