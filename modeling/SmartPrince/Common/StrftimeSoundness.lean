import SmartPrince.Common.StrftimeBounds

/-! # The pieces of a format string, one by one

A specifier without a value takes the byte behind it along uninterpreted. In a
format string built of pieces that byte is a literal, which nobody notices, or
the `%` of the next code, whose letter then stands alone. -/
namespace SmartPrince.Common.StrftimeSoundness
open SmartPrince.Lib.CString SmartPrince.Common.File SmartPrince.Common.StrftimeBounds

/-! ## Pieces -/

/-- A literal character, or a `%` with the code behind it. -/
inductive Piece where
  | literal (c : UInt8) (h0 : c ≠ 0) (hc : c ≠ '%'.toUInt8)
  | code (d : UInt8) (h0 : d ≠ 0)
  deriving DecidableEq, Repr

def Piece.chars : Piece → List UInt8
  | .literal c _ _ => [c]
  | .code d _ => ['%'.toUInt8, d]

def Piece.percent : Piece := .code '%'.toUInt8 (by decide)

/-- The format string built of the pieces, with its NUL and what follows it. -/
def userformat (ps : List Piece) (behind : List UInt8) : List UInt8 :=
  ps.flatMap Piece.chars ++ 0 :: behind

section Pieces
variable (cnt : Context) (filename : Option (List UInt8)) (sqltype : Int)

/-- `%C`, `%f` or `%n` without a value. -/
def Piece.Absent : Piece → Prop
  | .literal _ _ _ => False
  | .code d _ => specifier cnt filename sqltype d = .absent

instance : DecidablePred (Piece.Absent cnt filename sqltype)
  | .literal _ _ _ => inferInstanceAs (Decidable False)
  | .code d _ => inferInstanceAs (Decidable (specifier cnt filename sqltype d = .absent))

/-- A piece's own expansion: nothing without a value, else what `strftime` is
given for a format string of that piece alone. -/
def Piece.own (p : Piece) : List UInt8 :=
  if p.Absent cnt filename sqltype then []
  else expandedFormat cnt filename sqltype (userformat [p] [])

/-- The string given to `strftime` is the concatenation of the pieces' own expansions. -/
def Compositional (ps : List Piece) (behind : List UInt8) : Prop :=
  expandedFormat cnt filename sqltype (userformat ps behind) =
    ps.flatMap (Piece.own cnt filename sqltype)

/-- The code is replaced by itself: `strftime` interprets it, or its value
happens to be spelled that way. -/
def Plain (d : UInt8) : Prop :=
  specifier cnt filename sqltype d = .other ∨
    specifier cnt filename sqltype d = .text ['%'.toUInt8, d]

/-- The piece that a `%` taken along belongs to. A literal is spoiled only where
a `%%` stands before it. -/
def Piece.Keeps (doubled : Prop) : Piece → Prop
  | .literal c _ _ => doubled → Plain cnt filename sqltype c
  | .code d _ => Plain cnt filename sqltype d

/-- The first piece that is no `%%` keeps its meaning. -/
def Behind (doubled : Prop) (ps : List Piece) : Prop :=
  ∀ run p rest, ps = run ++ p :: rest → (∀ q ∈ run, q = Piece.percent) →
    p.Keeps cnt filename sqltype (doubled ∨ run ≠ [])

/-- No specifier without a value spoils what stands behind it. -/
def Clean (ps : List Piece) : Prop :=
  ∀ pre a post, ps = pre ++ a :: post → a.Absent cnt filename sqltype →
    Behind cnt filename sqltype False post

variable {cnt filename sqltype}

theorem behind_nil (doubled : Prop) : Behind cnt filename sqltype doubled [] := by
  intro run p rest h _
  cases run with
  | nil => cases h
  | cons q run => cases h

theorem clean_nil : Clean cnt filename sqltype [] := by
  intro pre a post h _
  cases pre with
  | nil => cases h
  | cons q pre => cases h

theorem Piece.Keeps.imp {p q : Prop} (hpq : q → p) {r : Piece}
    (h : r.Keeps cnt filename sqltype p) : r.Keeps cnt filename sqltype q := by
  cases r with
  | literal c h0 hc => exact fun hq => h (hpq hq)
  | code d h0 => exact h

theorem keeps_percent (doubled : Prop) : Piece.percent.Keeps cnt filename sqltype doubled :=
  .inl specifier_percent

theorem behind_percent {doubled : Prop} {ps : List Piece} :
    Behind cnt filename sqltype doubled (Piece.percent :: ps) ↔
      Behind cnt filename sqltype True ps := by
  constructor
  · intro h run p rest hps hrun
    have hk := h (Piece.percent :: run) p rest (by rw [hps, List.cons_append])
      (List.forall_mem_cons.mpr ⟨rfl, hrun⟩)
    exact hk.imp fun _ => .inr (List.cons_ne_nil _ _)
  · intro h run p rest hps hrun
    cases run with
    | nil =>
      obtain ⟨rfl, -⟩ := List.cons.inj hps
      exact keeps_percent _
    | cons q run =>
      obtain ⟨-, hps⟩ := List.cons.inj hps
      exact (h run p rest hps (List.forall_mem_cons.mp hrun).2).imp fun _ => .inl trivial

theorem behind_cons {doubled : Prop} {p : Piece} (hp : p ≠ Piece.percent) {ps : List Piece} :
    Behind cnt filename sqltype doubled (p :: ps) ↔ p.Keeps cnt filename sqltype doubled := by
  constructor
  · intro h
    exact (h [] p ps rfl nofun).imp .inl
  · intro h run q rest hps hrun
    cases run with
    | nil =>
      obtain ⟨rfl, -⟩ := List.cons.inj hps
      exact h.imp fun hd => hd.resolve_right fun hne => hne rfl
    | cons r run =>
      obtain ⟨rfl, -⟩ := List.cons.inj hps
      exact absurd (hrun p List.mem_cons_self) hp

theorem clean_cons {p : Piece} {ps : List Piece} :
    Clean cnt filename sqltype (p :: ps) ↔
      (p.Absent cnt filename sqltype → Behind cnt filename sqltype False ps) ∧
        Clean cnt filename sqltype ps := by
  constructor
  · intro h
    exact ⟨h [] p ps rfl, fun pre a post hps => h (p :: pre) a post (by rw [hps, List.cons_append])⟩
  · rintro ⟨hp, h⟩ pre a post hps ha
    cases pre with
    | nil =>
      obtain ⟨rfl, rfl⟩ := List.cons.inj hps
      exact hp ha
    | cons q pre => exact h pre a post (List.cons.inj hps).2 ha

/-! ## What `strftime` is given -/

theorem given_after {buf rest written : List UInt8} {n : Nat} (h0 : 0 ∉ written)
    (he : expand cnt filename sqltype buf = (expand cnt filename sqltype rest).after written n) :
    expandedFormat cnt filename sqltype buf =
      written ++ expandedFormat cnt filename sqltype rest := by
  unfold expandedFormat
  rw [he, Expansion.after, List.append_assoc, cstr_append h0]

theorem given_literal {c : UInt8} (h0 : c ≠ 0) (hc : c ≠ '%'.toUInt8) (buf : List UInt8) :
    expandedFormat cnt filename sqltype (c :: buf) =
      [c] ++ expandedFormat cnt filename sqltype buf :=
  given_after (fun h => h0 (List.mem_singleton.mp h).symm) (expand_literal h0 hc)

theorem given_code {d : UInt8} (h0 : d ≠ 0) (ha : specifier cnt filename sqltype d ≠ .absent)
    (buf : List UInt8) :
    expandedFormat cnt filename sqltype ('%'.toUInt8 :: d :: buf) =
      expansion cnt filename sqltype d ++ expandedFormat cnt filename sqltype buf :=
  given_after (expansion_no_nul cnt filename sqltype h0) (expand_code h0 ha)

theorem given_absent {d e : UInt8} (ha : specifier cnt filename sqltype d = .absent)
    (h0 : e ≠ 0) (buf : List UInt8) :
    expandedFormat cnt filename sqltype ('%'.toUInt8 :: d :: e :: buf) =
      [e] ++ expandedFormat cnt filename sqltype buf :=
  given_after (fun h => h0 (List.mem_singleton.mp h).symm) (expand_absent ha e)

theorem given_nul (buf : List UInt8) : expandedFormat cnt filename sqltype (0 :: buf) = [] := by
  unfold expandedFormat
  rw [expand_nul]
  rfl

theorem given_percent_nul (buf : List UInt8) :
    expandedFormat cnt filename sqltype ('%'.toUInt8 :: 0 :: buf) = ['%'.toUInt8] := by
  unfold expandedFormat
  rw [expand_percent_nul]
  rfl

/-- The NUL taken along ends the string, whatever is written behind it. -/
theorem given_absent_nul {d : UInt8} (ha : specifier cnt filename sqltype d = .absent)
    (buf : List UInt8) :
    expandedFormat cnt filename sqltype ('%'.toUInt8 :: d :: 0 :: buf) = [] := by
  unfold expandedFormat
  rw [expand_absent ha]
  exact cstr_nul (a := []) List.not_mem_nil

theorem percent_present : specifier cnt filename sqltype '%'.toUInt8 ≠ .absent := by
  rw [specifier_percent]
  nofun

theorem expansion_percent :
    expansion cnt filename sqltype '%'.toUInt8 = ['%'.toUInt8, '%'.toUInt8] := rfl

theorem own_literal {c : UInt8} (h0 : c ≠ 0) (hc : c ≠ '%'.toUInt8) :
    (Piece.literal c h0 hc).own cnt filename sqltype = [c] := by
  have hna : ¬ (Piece.literal c h0 hc).Absent cnt filename sqltype := not_false
  rw [Piece.own, if_neg hna]
  exact (given_literal h0 hc [0]).trans (congrArg _ (given_nul []))

theorem own_code {d : UInt8} (h0 : d ≠ 0) :
    (Piece.code d h0).own cnt filename sqltype = expansion cnt filename sqltype d := by
  unfold Piece.own
  split
  · next ha =>
    have ha : specifier cnt filename sqltype d = .absent := ha
    simp only [expansion, ha]
  · next ha =>
    refine (given_code h0 ha [0]).trans ?_
    rw [given_nul, List.append_nil]

theorem own_percent :
    Piece.percent.own cnt filename sqltype = ['%'.toUInt8, '%'.toUInt8] :=
  own_code (by decide)

theorem expansion_eq_iff {d : UInt8} :
    expansion cnt filename sqltype d = ['%'.toUInt8, d] ↔ Plain cnt filename sqltype d := by
  unfold expansion Plain
  cases specifier cnt filename sqltype d with
  | text tempstr => 
    simp only [replaced]
    split
    · next h => simp [h]
    · simp
  | absent => simp
  | other => simp

/-! ## Where the loop stands -/

section Agrees
variable (cnt filename sqltype)

/-- Behind `head` the loop expands every beginning of the pieces to what is
expected of it, with `lag` still to come. -/
def Agrees (behind head lag : List UInt8) (ps : List Piece) : Prop :=
  ∀ qs, qs <+: ps → expandedFormat cnt filename sqltype (head ++ userformat qs behind) =
    lag ++ qs.flatMap (Piece.own cnt filename sqltype)

end Agrees

/-- The loop goes from `head` over a piece and stands behind `head'`, having written `w`. -/
theorem agrees_cons {behind head lag lag' w : List UInt8} {p : Piece} {ps : List Piece}
    (head' : List UInt8)
    (hend : expandedFormat cnt filename sqltype (head ++ 0 :: behind) = lag)
    (hend' : expandedFormat cnt filename sqltype (head' ++ 0 :: behind) = lag')
    (hstep : ∀ buf, expandedFormat cnt filename sqltype (head ++ (p.chars ++ buf)) =
      w ++ expandedFormat cnt filename sqltype (head' ++ buf)) :
    Agrees cnt filename sqltype behind head lag (p :: ps) ↔
      w ++ lag' = lag ++ p.own cnt filename sqltype ∧
        Agrees cnt filename sqltype behind head' lag' ps := by
  have hformat (qs : List Piece) :
      expandedFormat cnt filename sqltype (head ++ userformat (p :: qs) behind) =
        w ++ expandedFormat cnt filename sqltype (head' ++ userformat qs behind) := by
    unfold userformat
    rw [List.flatMap_cons, List.append_assoc, hstep]
  constructor
  · intro h
    have hp := h [p] (List.cons_prefix_cons.mpr ⟨rfl, List.nil_prefix⟩)
    rw [hformat] at hp
    have hw : w ++ lag' = lag ++ p.own cnt filename sqltype := by
      simpa [userformat, hend'] using hp
    refine ⟨hw, fun qs hqs => ?_⟩
    have hq := h (p :: qs) (List.cons_prefix_cons.mpr ⟨rfl, hqs⟩)
    rw [hformat, List.flatMap_cons, ← List.append_assoc, ← hw, List.append_assoc] at hq
    exact List.append_cancel_left hq
  · rintro ⟨hw, h⟩ qs hqs
    cases qs with
    | nil => simpa [userformat] using hend
    | cons q qs =>
      obtain ⟨rfl, hqs'⟩ := List.cons_prefix_cons.mp hqs
      rw [hformat, h qs hqs', List.flatMap_cons, ← List.append_assoc, hw, List.append_assoc]

section Places
variable {behind : List UInt8} {ps : List Piece} {a c d : UInt8}

/-- The loop goes from `head` over a piece to the next one. -/
theorem agrees_over {head lag w : List UInt8} {p : Piece}
    (hend : expandedFormat cnt filename sqltype (head ++ 0 :: behind) = lag)
    (hstep : ∀ buf, expandedFormat cnt filename sqltype (head ++ (p.chars ++ buf)) =
      w ++ expandedFormat cnt filename sqltype buf) :
    Agrees cnt filename sqltype behind head lag (p :: ps) ↔
      w = lag ++ p.own cnt filename sqltype ∧ Agrees cnt filename sqltype behind [] [] ps := by
  rw [agrees_cons [] hend (given_nul behind) hstep, List.append_nil]

theorem aligned_literal (h0 : c ≠ 0) (hc : c ≠ '%'.toUInt8) :
    Agrees cnt filename sqltype behind [] [] (.literal c h0 hc :: ps) ↔
      Agrees cnt filename sqltype behind [] [] ps := by
  rw [agrees_over (given_nul behind) (given_literal h0 hc), own_literal]
  exact and_iff_right rfl

theorem aligned_code (h0 : d ≠ 0) (ha : specifier cnt filename sqltype d ≠ .absent) :
    Agrees cnt filename sqltype behind [] [] (.code d h0 :: ps) ↔
      Agrees cnt filename sqltype behind [] [] ps := by
  rw [agrees_over (given_nul behind) (given_code h0 ha), own_code]
  exact and_iff_right rfl

theorem aligned_absent (h0 : d ≠ 0) (ha : specifier cnt filename sqltype d = .absent) :
    Agrees cnt filename sqltype behind [] [] (.code d h0 :: ps) ↔
      Agrees cnt filename sqltype behind ['%'.toUInt8, d] [] ps := by
  have hown : expansion cnt filename sqltype d = [] := by simp only [expansion, ha]
  have hstep (buf : List UInt8) :
      expandedFormat cnt filename sqltype ([] ++ (['%'.toUInt8, d] ++ buf)) =
        [] ++ expandedFormat cnt filename sqltype (['%'.toUInt8, d] ++ buf) := rfl
  rw [agrees_cons _ (given_nul behind) (given_absent_nul ha behind) hstep, own_code, hown]
  exact and_iff_right rfl

theorem skipping_literal (ha : specifier cnt filename sqltype a = .absent) (h0 : c ≠ 0)
    (hc : c ≠ '%'.toUInt8) :
    Agrees cnt filename sqltype behind ['%'.toUInt8, a] [] (.literal c h0 hc :: ps) ↔
      Agrees cnt filename sqltype behind [] [] ps := by
  rw [agrees_over (given_absent_nul ha behind) (given_absent ha h0), own_literal]
  exact and_iff_right rfl

theorem skipping_code (ha : specifier cnt filename sqltype a = .absent) (h0 : d ≠ 0)
    (hd : d ≠ '%'.toUInt8) :
    Agrees cnt filename sqltype behind ['%'.toUInt8, a] [] (.code d h0 :: ps) ↔
      Plain cnt filename sqltype d ∧ Agrees cnt filename sqltype behind [] [] ps := by
  have hstep (buf : List UInt8) :
      expandedFormat cnt filename sqltype (['%'.toUInt8, a] ++ (['%'.toUInt8, d] ++ buf)) =
        ['%'.toUInt8, d] ++ expandedFormat cnt filename sqltype buf := by
    refine (given_absent ha (by decide) (d :: buf)).trans ?_
    rw [given_literal h0 hd, ← List.append_assoc]
    rfl
  rw [agrees_over (given_absent_nul ha behind) hstep, own_code, List.nil_append, eq_comm,
    expansion_eq_iff]

theorem skipping_percent (ha : specifier cnt filename sqltype a = .absent) :
    Agrees cnt filename sqltype behind ['%'.toUInt8, a] [] (Piece.percent :: ps) ↔
      Agrees cnt filename sqltype behind ['%'.toUInt8] ['%'.toUInt8] ps := by
  have hstep (buf : List UInt8) :
      expandedFormat cnt filename sqltype (['%'.toUInt8, a] ++ (Piece.percent.chars ++ buf)) =
        ['%'.toUInt8] ++ expandedFormat cnt filename sqltype (['%'.toUInt8] ++ buf) :=
    given_absent ha (by decide) ('%'.toUInt8 :: buf)
  rw [agrees_cons _ (given_absent_nul ha behind) (given_percent_nul behind) hstep, own_percent]
  exact and_iff_right rfl

theorem pending_literal (h0 : c ≠ 0) (hc : c ≠ '%'.toUInt8) :
    Agrees cnt filename sqltype behind ['%'.toUInt8] ['%'.toUInt8] (.literal c h0 hc :: ps) ↔
      Plain cnt filename sqltype c ∧ Agrees cnt filename sqltype behind [] [] ps := by
  by_cases ha : specifier cnt filename sqltype c = .absent
  · have hstep (buf : List UInt8) :
        expandedFormat cnt filename sqltype (['%'.toUInt8] ++ ([c] ++ buf)) =
          [] ++ expandedFormat cnt filename sqltype (['%'.toUInt8, c] ++ buf) := rfl
    rw [agrees_cons _ (given_percent_nul behind) (given_absent_nul ha behind) hstep, own_literal]
    constructor
    · intro h
      cases h.1
    · rintro ⟨h | h, -⟩
      · cases ha.symm.trans h
      · cases ha.symm.trans h
  · rw [agrees_over (given_percent_nul behind) (given_code h0 ha), own_literal, ← expansion_eq_iff]
    rfl

theorem pending_code (h0 : d ≠ 0) (hd : d ≠ '%'.toUInt8) :
    Agrees cnt filename sqltype behind ['%'.toUInt8] ['%'.toUInt8] (.code d h0 :: ps) ↔
      Plain cnt filename sqltype d ∧ Agrees cnt filename sqltype behind [] [] ps := by
  have hstep (buf : List UInt8) :
      expandedFormat cnt filename sqltype (['%'.toUInt8] ++ (['%'.toUInt8, d] ++ buf)) =
        ['%'.toUInt8, '%'.toUInt8, d] ++ expandedFormat cnt filename sqltype buf := by
    refine (given_code (by decide) percent_present (d :: buf)).trans ?_
    rw [given_literal h0 hd, expansion_percent, ← List.append_assoc]
    rfl
  rw [agrees_over (given_percent_nul behind) hstep, own_code, ← expansion_eq_iff, eq_comm]
  exact and_congr_left' (List.cons_inj_right _)

theorem pending_percent :
    Agrees cnt filename sqltype behind ['%'.toUInt8] ['%'.toUInt8] (Piece.percent :: ps) ↔
      Agrees cnt filename sqltype behind ['%'.toUInt8] ['%'.toUInt8] ps := by
  have hstep (buf : List UInt8) :
      expandedFormat cnt filename sqltype (['%'.toUInt8] ++ (Piece.percent.chars ++ buf)) =
        ['%'.toUInt8, '%'.toUInt8] ++ expandedFormat cnt filename sqltype (['%'.toUInt8] ++ buf) :=
    given_code (by decide) percent_present ('%'.toUInt8 :: buf)
  rw [agrees_cons _ (given_percent_nul behind) (given_percent_nul behind) hstep, own_percent]
  exact and_iff_right rfl

end Places

theorem not_absent_of_keeps {doubled : Prop} {p : Piece} (h : p.Keeps cnt filename sqltype doubled) :
    ¬ p.Absent cnt filename sqltype := by
  cases p with
  | literal c h0 hc => exact not_false
  | code d h0 =>
    intro ha
    have ha : specifier cnt filename sqltype d = .absent := ha
    cases h with
    | inl h => cases ha.symm.trans h
    | inr h => cases ha.symm.trans h

theorem clean_present {p : Piece} (hp : ¬ p.Absent cnt filename sqltype) {ps : List Piece} :
    Clean cnt filename sqltype (p :: ps) ↔ Clean cnt filename sqltype ps := by
  rw [clean_cons]
  exact and_iff_right fun ha => absurd ha hp

theorem kept_cons {doubled : Prop} {p : Piece} (hp : p ≠ Piece.percent) {ps : List Piece} :
    p.Keeps cnt filename sqltype doubled ∧ Clean cnt filename sqltype ps ↔
      Behind cnt filename sqltype doubled (p :: ps) ∧ Clean cnt filename sqltype (p :: ps) := by
  rw [behind_cons hp]
  exact and_congr_right fun hk => (clean_present (not_absent_of_keeps hk)).symm

theorem kept_percent {doubled : Prop} {ps : List Piece} :
    Behind cnt filename sqltype True ps ∧ Clean cnt filename sqltype ps ↔
      Behind cnt filename sqltype doubled (Piece.percent :: ps) ∧
        Clean cnt filename sqltype (Piece.percent :: ps) := by
  have hna : ¬ Piece.percent.Absent cnt filename sqltype := percent_present
  rw [behind_percent, clean_present hna]

theorem kept_nil {doubled : Prop} {p : Prop} (h : p) :
    p ↔ Behind cnt filename sqltype doubled [] ∧ Clean cnt filename sqltype [] :=
  iff_of_true h ⟨behind_nil doubled, clean_nil⟩

theorem agrees_nil {behind head lag : List UInt8}
    (hend : expandedFormat cnt filename sqltype (head ++ 0 :: behind) = lag) :
    Agrees cnt filename sqltype behind head lag [] := by
  intro qs hqs
  obtain rfl := List.prefix_nil.mp hqs
  simpa [userformat] using hend

theorem ne_percent {d : UInt8} {h0 : d ≠ 0} (hp : Piece.code d h0 ≠ Piece.percent) :
    d ≠ '%'.toUInt8 := by
  rintro rfl
  exact hp rfl

section Step
variable {behind : List UInt8} {ps : List Piece}
  (haligned : Agrees cnt filename sqltype behind [] [] ps ↔ Clean cnt filename sqltype ps)
include haligned

theorem aligned_step (p : Piece)
    (hskipping : ∀ a, specifier cnt filename sqltype a = .absent →
      (Agrees cnt filename sqltype behind ['%'.toUInt8, a] [] ps ↔
        Behind cnt filename sqltype False ps ∧ Clean cnt filename sqltype ps)) :
    Agrees cnt filename sqltype behind [] [] (p :: ps) ↔ Clean cnt filename sqltype (p :: ps) := by
  rw [clean_cons]
  cases p with
  | literal c h0 hc =>
    rw [aligned_literal, haligned]
    exact (and_iff_right fun h => h.elim).symm
  | code d h0 =>
    by_cases ha : specifier cnt filename sqltype d = .absent
    · rw [aligned_absent h0 ha, hskipping d ha]
      exact and_congr_left' ⟨fun h _ => h, fun h => h ha⟩
    · rw [aligned_code h0 ha, haligned]
      exact (and_iff_right fun h => absurd h ha).symm

variable (hpending : Agrees cnt filename sqltype behind ['%'.toUInt8] ['%'.toUInt8] ps ↔
  Behind cnt filename sqltype True ps ∧ Clean cnt filename sqltype ps)
include hpending

theorem skipping_step (p : Piece) {a : UInt8} (ha : specifier cnt filename sqltype a = .absent) :
    Agrees cnt filename sqltype behind ['%'.toUInt8, a] [] (p :: ps) ↔
      Behind cnt filename sqltype False (p :: ps) ∧ Clean cnt filename sqltype (p :: ps) := by
  by_cases hp : p = Piece.percent
  · subst hp
    rw [← kept_percent, skipping_percent ha, hpending]
  · rw [← kept_cons hp]
    cases p with
    | literal c h0 hc =>
      rw [skipping_literal ha, haligned]
      exact (and_iff_right fun h => h.elim).symm
    | code d h0 =>
      rw [skipping_code ha h0 (ne_percent hp), haligned]
      rfl

theorem pending_step (p : Piece) :
    Agrees cnt filename sqltype behind ['%'.toUInt8] ['%'.toUInt8] (p :: ps) ↔
      Behind cnt filename sqltype True (p :: ps) ∧ Clean cnt filename sqltype (p :: ps) := by
  by_cases hp : p = Piece.percent
  · subst hp
    rw [← kept_percent, pending_percent, hpending]
  · rw [← kept_cons hp]
    cases p with
    | literal c h0 hc =>
      rw [pending_literal, haligned]
      exact and_congr_left' ⟨fun h _ => h, fun h => h trivial⟩
    | code d h0 =>
      rw [pending_code h0 (ne_percent hp), haligned]
      rfl

end Step

/-- The three places where the loop can stand at the end of a piece: behind
it, behind a specifier without a value, or on the second `%` of a `%%`. -/
theorem agrees_iff (behind : List UInt8) (ps : List Piece) :
    (Agrees cnt filename sqltype behind [] [] ps ↔ Clean cnt filename sqltype ps) ∧
    (∀ a, specifier cnt filename sqltype a = .absent →
      (Agrees cnt filename sqltype behind ['%'.toUInt8, a] [] ps ↔
        Behind cnt filename sqltype False ps ∧ Clean cnt filename sqltype ps)) ∧
    (Agrees cnt filename sqltype behind ['%'.toUInt8] ['%'.toUInt8] ps ↔
      Behind cnt filename sqltype True ps ∧ Clean cnt filename sqltype ps) := by
  induction ps with
  | nil =>
    refine ⟨iff_of_true (agrees_nil (given_nul behind)) clean_nil, fun a ha => ?_, ?_⟩
    · exact kept_nil (agrees_nil (given_absent_nul ha behind))
    · exact kept_nil (agrees_nil (given_percent_nul behind))
  | cons p ps ih =>
    obtain ⟨haligned, hskipping, hpending⟩ := ih
    refine ⟨aligned_step haligned p hskipping, fun a ha => ?_, ?_⟩
    · exact skipping_step haligned hpending p ha
    · exact pending_step haligned hpending p

end Pieces

end SmartPrince.Common.StrftimeSoundness
