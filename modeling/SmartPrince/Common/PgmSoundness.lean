import Mathlib.Data.List.Infix
import SmartPrince.Common.Picture

/-! # What `get_pgm` takes for a picture

A file is cut into lines by its line feeds, and by `fgets` after 254 bytes too.
The header is read over either; where both read the same, what is left to go
wrong is the maximum, which is not checked, and the data, which may be short. -/
namespace SmartPrince.Common.PgmSoundness
open SmartPrince.Lib.CString SmartPrince.Common.Picture
open SmartPrince.Net.HttpParser (isspace)

/-! ## Files -/

def IsLine (line : List UInt8) : Prop := ∃ text, 10 ∉ text ∧ line = text ++ [10]

/-- The parts of a file. -/
structure PgmFile where
  magic : List UInt8
  sizeComments : List (List UInt8)
  size : List UInt8
  maxComments : List (List UInt8)
  maximum : List UInt8
  data : List UInt8

namespace PgmFile

def comments (p : PgmFile) : List (List UInt8) := p.sizeComments ++ p.maxComments

def lines (p : PgmFile) : List (List UInt8) := p.magic :: p.size :: p.maximum :: p.comments

def bytes (p : PgmFile) : List UInt8 :=
  p.magic ++ (p.sizeComments.flatten ++ (p.size ++ (p.maxComments.flatten ++ (p.maximum ++ p.data))))

/-- A header of lines that give the numbers. -/
structure Header (p : PgmFile) (x y maxval : Int) : Prop where
  lines : ∀ line ∈ p.lines, IsLine line
  magic : p.magic.take 2 = ofText "P5"
  comments : ∀ line ∈ p.comments, isComment line = true
  size : scanTwo p.size = some (x, y)
  maximum : ∃ rest, scanInt p.maximum = some (maxval, rest)

/-- A picture of this size: a maximum that a byte can have, and enough data. -/
structure Valid (p : PgmFile) (width height maxval : Nat) : Prop where
  header : p.Header width height maxval
  lower : 1 ≤ maxval
  upper : maxval ≤ 255
  enough : width * height ≤ p.data.length

end PgmFile

/-- `floor(raw * 255 / maxval)`, at most 255. -/
def tone (maxval : Nat) (raw : UInt8) : UInt8 := UInt8.ofNat (min (raw.toNat * 255 / maxval) 255)

/-- What is to be returned for a file. -/
structure Meets (width height : Nat) (picture : List UInt8) (outcome : Outcome) : Prop where
  accepted : ∀ (p : PgmFile) (maxval : Nat), p.bytes = picture → p.Valid width height maxval →
    outcome = .image ((p.data.take (width * height)).map fun raw => some (tone maxval raw))
  rejected : (¬ ∃ (p : PgmFile) (maxval : Nat), p.bytes = picture ∧ p.Valid width height maxval) → outcome = .null

/-! ## The header, over what reads a line -/

/-- The numbers of a header, and the bytes behind it. -/
structure Reading where
  x : Int
  y : Int
  maxval : Int
  data : List UInt8
  deriving DecidableEq, Repr

def readHeader (next : List UInt8 → Option (List UInt8 × List UInt8)) (picture : List UInt8) :
    Option Reading :=
  match next picture with
  | none => none
  | some (line, rest) =>
    if line.take 2 ≠ ofText "P5" then none
    else
      match skipComment next (rest.length + 1) rest with
      | none => none
      | some (line, rest) =>
        match scanTwo line with
        | none => none
        | some (x, y) =>
          match skipComment next (rest.length + 1) rest with
          | none => none
          | some (line, data) =>
            match scanInt line with
            | none => none
            | some (maxval, _) => some { x, y, maxval, data }

/-- A line as long as it is. -/
def wholeLine (stream : List UInt8) : Option (List UInt8 × List UInt8) :=
  if stream = [] then none else some (readLine stream.length stream)

/-- The header as `get_pgm` reads it, and as its lines give it. -/
def cutHeader (picture : List UInt8) : Option Reading := readHeader (fgets 255) picture
def wholeHeader (picture : List UInt8) : Option Reading := readHeader wholeLine picture

/-- The size is checked behind the header, whatever comes first. -/
theorem getPgm_cutHeader (toInt : Int → Int) (width height : Nat) (picture : List UInt8) :
    getPgm toInt width height picture =
      match cutHeader picture with
      | none => .null
      | some h =>
        if toInt h.x ≠ width ∨ toInt h.y ≠ height then .null
        else readImage width height (toInt h.maxval) h.data := by
  unfold getPgm cutHeader readHeader
  cases fgets 255 picture with
  | none => rfl
  | some first =>
    obtain ⟨line, rest⟩ := first
    dsimp only
    by_cases hmagic : line.take 2 = ofText "P5"
    · rw [if_neg (not_not_intro hmagic), if_neg (not_not_intro hmagic)]
      cases skipComment (fgets 255) (rest.length + 1) rest with
      | none => rfl
      | some second =>
        obtain ⟨line, rest⟩ := second
        dsimp only
        cases scanTwo line with
        | none => rfl
        | some size =>
          obtain ⟨x, y⟩ := size
          dsimp only
          cases skipComment (fgets 255) (rest.length + 1) rest with
          | none => exact ite_self _
          | some third =>
            obtain ⟨line, data⟩ := third
            dsimp only
            cases scanInt line with
            | none => exact ite_self _
            | some maximum => rfl
    · rw [if_pos hmagic, if_pos hmagic]

/-! ## Lines -/

section Lines
variable {n : Nat} {stream line rest : List UInt8}

theorem readLine_isLine (h : IsLine line) (hlen : line.length ≤ n) (rest : List UInt8) :
    readLine n (line ++ rest) = (line, rest) := by
  obtain ⟨text, hno, rfl⟩ := h
  induction text generalizing n with
  | nil =>
    cases n with
    | zero => cases hlen
    | succ n => rfl
  | cons c text ih =>
    cases n with
    | zero => cases hlen
    | succ n =>
      rw [List.mem_cons, not_or] at hno
      have hstep := ih hno.2 (Nat.le_of_succ_le_succ hlen)
      rw [List.cons_append, List.cons_append, readLine, if_neg (Ne.symm hno.1), hstep]

/-- What is read of a file is a line unless the file is over. -/
theorem readLine_whole (hlen : stream.length ≤ n) (hread : readLine n stream = (line, rest)) :
    stream = line ++ rest ∧ (rest ≠ [] → IsLine line) := by
  induction stream generalizing n line rest with
  | nil =>
    cases n with
    | zero => cases hread; exact ⟨rfl, fun h => absurd rfl h⟩
    | succ n => cases hread; exact ⟨rfl, fun h => absurd rfl h⟩
  | cons c stream ih =>
    cases n with
    | zero => cases hlen
    | succ n =>
      rw [readLine] at hread
      by_cases hc : c = 10
      · rw [if_pos hc] at hread
        cases hread
        exact ⟨rfl, fun _ => ⟨[], List.not_mem_nil, by rw [hc]; rfl⟩⟩
      · rw [if_neg hc] at hread
        cases hstep : readLine n stream with
        | mk text behind =>
          rw [hstep] at hread
          cases hread
          obtain ⟨heq, hline⟩ := ih (Nat.le_of_succ_le_succ hlen) hstep
          refine ⟨congrArg (c :: ·) heq, fun hrest => ?_⟩
          obtain ⟨before, hno, hbefore⟩ := hline hrest
          refine ⟨c :: before, ?_, by rw [hbefore]; rfl⟩
          rw [List.mem_cons, not_or]
          exact ⟨Ne.symm hc, hno⟩

theorem IsLine.ne_nil (h : IsLine line) : line ≠ [] := by
  obtain ⟨text, _, rfl⟩ := h
  exact List.append_ne_nil_of_right_ne_nil _ (List.cons_ne_nil _ _)

/-- A line that a reader takes as a whole. -/
def Reads (next : List UInt8 → Option (List UInt8 × List UInt8)) (line : List UInt8) : Prop :=
  ∀ rest, next (line ++ rest) = some (line, rest)

theorem wholeLine_reads (h : IsLine line) : Reads wholeLine line := fun rest => by
  unfold wholeLine
  rw [if_neg (List.append_ne_nil_of_left_ne_nil h.ne_nil _), readLine_isLine h
    (by rw [List.length_append]; exact Nat.le_add_right _ _)]

theorem fgets_reads (h : IsLine line) (hlen : line.length ≤ 254) : Reads (fgets 255) line :=
  fun rest => by
    unfold fgets
    rw [if_neg (List.append_ne_nil_of_left_ne_nil h.ne_nil _), readLine_isLine h hlen]

theorem wholeLine_some (h : wholeLine stream = some (line, rest)) :
    stream = line ++ rest ∧ (rest ≠ [] → IsLine line) := by
  unfold wholeLine at h
  split at h
  · cases h
  · exact readLine_whole (Nat.le_refl _) (Option.some.inj h)

end Lines

/-! ## Comments -/

section Comments
variable {next : List UInt8 → Option (List UInt8 × List UInt8)} {turns : Nat}
  {stream line rest : List UInt8}

theorem skipComment_comments {comments : List (List UInt8)} (hread : ∀ c ∈ comments, Reads next c)
    (hcomment : ∀ c ∈ comments, isComment c = true) (hline : Reads next line)
    (hno : isComment line = false) (hturns : comments.length < turns) :
    skipComment next turns (comments.flatten ++ (line ++ rest)) = some (line, rest) := by
  induction comments generalizing turns with
  | nil =>
    cases turns with
    | zero => cases hturns
    | succ turns =>
      rw [List.flatten_nil, List.nil_append, skipComment, hline]
      dsimp only
      rw [hno]
      rfl
  | cons c comments ih =>
    cases turns with
    | zero => cases hturns
    | succ turns =>
      rw [List.flatten_cons, List.append_assoc, skipComment, hread c List.mem_cons_self]
      dsimp only
      rw [if_pos (hcomment c List.mem_cons_self)]
      exact ih (fun c hc => hread c (List.mem_cons_of_mem _ hc))
        (fun c hc => hcomment c (List.mem_cons_of_mem _ hc)) (Nat.lt_of_succ_lt_succ hturns)

theorem comments_length {comments : List (List UInt8)} (h : ∀ c ∈ comments, IsLine c) :
    comments.length ≤ comments.flatten.length := by
  induction comments with
  | nil => exact Nat.le_refl 0
  | cons c comments ih =>
    have hc := List.length_pos_iff.mpr (h c List.mem_cons_self).ne_nil
    have hrest := ih fun c hc => h c (List.mem_cons_of_mem _ hc)
    rw [List.length_cons, List.flatten_cons, List.length_append]
    omega

/-- Comments in front of a line that is none, as they stand in a file. -/
theorem skipComment_found {comments : List (List UInt8)} (hlines : ∀ c ∈ comments, IsLine c)
    (hread : ∀ c ∈ comments, Reads next c) (hcomment : ∀ c ∈ comments, isComment c = true)
    (hline : Reads next line) (hno : isComment line = false) :
    skipComment next ((comments.flatten ++ (line ++ rest)).length + 1)
      (comments.flatten ++ (line ++ rest)) = some (line, rest) := by
  refine skipComment_comments hread hcomment hline hno ?_
  have hle := comments_length hlines
  rw [List.length_append]
  omega

/-- A turn of the loop. -/
theorem skipComment_turn (h : skipComment next turns stream = some (line, rest)) :
    ∃ turns' c behind, turns = turns' + 1 ∧ next stream = some (c, behind) ∧
      (isComment c = true ∧ skipComment next turns' behind = some (line, rest) ∨
        isComment c = false ∧ c = line ∧ behind = rest) := by
  cases turns with
  | zero => cases h
  | succ turns =>
    rw [skipComment] at h
    cases hnext : next stream with
    | none =>
      rw [hnext] at h
      cases h
    | some first =>
      obtain ⟨c, behind⟩ := first
      rw [hnext] at h
      dsimp only at h
      refine ⟨turns, c, behind, rfl, rfl, ?_⟩
      cases hcomment : isComment c with
      | false =>
        rw [hcomment, if_neg Bool.false_ne_true] at h
        cases h
        exact .inr ⟨rfl, rfl, rfl⟩
      | true =>
        rw [hcomment, if_pos rfl] at h
        exact .inl ⟨rfl, h⟩

theorem skipComment_ne_nil (h : skipComment wholeLine turns stream = some (line, rest)) :
    stream ≠ [] := fun h0 => by
  obtain ⟨-, c, behind, -, hnext, -⟩ := skipComment_turn h
  rw [h0] at hnext
  cases hnext

/-- What the loop leaves stands behind comments. -/
theorem skipComment_some (h : skipComment wholeLine turns stream = some (line, rest)) :
    ∃ comments : List (List UInt8), (∀ c ∈ comments, IsLine c ∧ isComment c = true) ∧
      stream = comments.flatten ++ (line ++ rest) ∧ (rest ≠ [] → IsLine line) := by
  induction turns generalizing stream with
  | zero => cases h
  | succ turns ih =>
    obtain ⟨turns', c, behind, hturns, hnext, hturn⟩ := skipComment_turn h
    cases hturns
    obtain ⟨heq, hc⟩ := wholeLine_some hnext
    obtain ⟨hcomment, hrest⟩ | ⟨-, rfl, rfl⟩ := hturn
    · obtain ⟨comments, hall, hstream, hline⟩ := ih hrest
      have hall' : ∀ d ∈ c :: comments, IsLine d ∧ isComment d = true :=
        List.forall_mem_cons.mpr ⟨⟨hc (skipComment_ne_nil hrest), hcomment⟩, hall⟩
      exact ⟨c :: comments, hall', by simp [heq, hstream], hline⟩
    · exact ⟨[], nofun, heq, hc⟩

end Comments

/-! ## The header of a file -/

theorem scanInt_comment {line : List UInt8} (h : isComment line = true) : scanInt line = none := by
  cases line with
  | nil => cases h
  | cons c line =>
    have hc : c = '#'.toUInt8 := Option.some.inj (of_decide_eq_true h)
    have hspace : (c :: line).dropWhile isspace = c :: line :=
      List.dropWhile_cons_of_neg (by rw [hc]; decide)
    have hsign : ¬ ((c :: line).head? = some '-'.toUInt8 ∨ (c :: line).head? = some '+'.toUInt8) := by
      rw [hc, List.head?_cons]
      decide
    have hdigit : (c :: line).takeWhile isdigit = [] :=
      List.takeWhile_cons_of_neg (by rw [hc]; decide)
    unfold scanInt
    dsimp only
    rw [hspace, if_neg hsign, if_pos hdigit]

theorem not_comment_of_scanInt {line : List UInt8} {r : Int × List UInt8}
    (h : scanInt line = some r) : isComment line = false := by
  cases hc : isComment line with
  | false => rfl
  | true =>
    rw [scanInt_comment hc] at h
    cases h

theorem not_comment_of_scanTwo {line : List UInt8} {r : Int × Int} (h : scanTwo line = some r) :
    isComment line = false := by
  unfold scanTwo at h
  cases hs : scanInt line with
  | none =>
    rw [hs] at h
    cases h
  | some r => exact not_comment_of_scanInt hs

section Header
variable {p : PgmFile} {x y maxval : Int}

/-- A reader that takes the lines of a header as they are reads the header. -/
theorem readHeader_file {next : List UInt8 → Option (List UInt8 × List UInt8)}
    (h : p.Header x y maxval) (hnext : ∀ line ∈ p.lines, Reads next line) :
    readHeader next p.bytes = some ⟨x, y, maxval, p.data⟩ := by
  obtain ⟨rest, hmax⟩ := h.maximum
  have hsizeComments : ∀ c ∈ p.sizeComments, c ∈ p.comments :=
    fun c hc => List.mem_append_left _ hc
  have hmaxComments : ∀ c ∈ p.maxComments, c ∈ p.comments :=
    fun c hc => List.mem_append_right _ hc
  have hcomments : ∀ c ∈ p.comments, c ∈ p.lines := fun c hc =>
    List.mem_cons_of_mem _ (List.mem_cons_of_mem _ (List.mem_cons_of_mem _ hc))
  have hmagic : p.magic ∈ p.lines := List.mem_cons_self
  have hsize : p.size ∈ p.lines := List.mem_cons_of_mem _ List.mem_cons_self
  have hmaximum : p.maximum ∈ p.lines :=
    List.mem_cons_of_mem _ (List.mem_cons_of_mem _ List.mem_cons_self)
  unfold readHeader PgmFile.bytes
  rw [hnext p.magic hmagic]
  dsimp only
  rw [if_neg (not_not_intro h.magic),
    skipComment_found (fun c hc => h.lines c (hcomments c (hsizeComments c hc)))
      (fun c hc => hnext c (hcomments c (hsizeComments c hc)))
      (fun c hc => h.comments c (hsizeComments c hc)) (hnext p.size hsize)
      (not_comment_of_scanTwo h.size)]
  dsimp only
  rw [h.size]
  dsimp only
  rw [skipComment_found (fun c hc => h.lines c (hcomments c (hmaxComments c hc)))
      (fun c hc => hnext c (hcomments c (hmaxComments c hc)))
      (fun c hc => h.comments c (hmaxComments c hc)) (hnext p.maximum hmaximum)
      (not_comment_of_scanInt hmax)]
  dsimp only
  rw [hmax]

theorem wholeHeader_file (h : p.Header x y maxval) :
    wholeHeader p.bytes = some ⟨x, y, maxval, p.data⟩ :=
  readHeader_file h fun line hline => wholeLine_reads (h.lines line hline)

/-- No line of the header is cut. -/
theorem cutHeader_file (h : p.Header x y maxval) (hshort : ∀ line ∈ p.lines, line.length ≤ 254) :
    cutHeader p.bytes = wholeHeader p.bytes :=
  (readHeader_file h fun line hline => fgets_reads (h.lines line hline) (hshort line hline)).trans
    (wholeHeader_file h).symm

/-- The lines that a header was read from. -/
theorem readHeader_some {next : List UInt8 → Option (List UInt8 × List UInt8)}
    {picture data : List UInt8} (h : readHeader next picture = some ⟨x, y, maxval, data⟩) :
    ∃ magic rest size behind maximum tail, next picture = some (magic, rest) ∧
      magic.take 2 = ofText "P5" ∧
      skipComment next (rest.length + 1) rest = some (size, behind) ∧
      scanTwo size = some (x, y) ∧
      skipComment next (behind.length + 1) behind = some (maximum, data) ∧
      scanInt maximum = some (maxval, tail) := by
  unfold readHeader at h
  cases hfirst : next picture with
  | none => rw [hfirst] at h; cases h
  | some first =>
    obtain ⟨magic, rest⟩ := first
    rw [hfirst] at h
    dsimp only at h
    by_cases hmagic : magic.take 2 = ofText "P5"
    · rw [if_neg (not_not_intro hmagic)] at h
      cases hsecond : skipComment next (rest.length + 1) rest with
      | none => rw [hsecond] at h; cases h
      | some second =>
        obtain ⟨size, behind⟩ := second
        rw [hsecond] at h
        dsimp only at h
        cases hsize : scanTwo size with
        | none => rw [hsize] at h; cases h
        | some xy =>
          rw [hsize] at h
          dsimp only at h
          cases hthird : skipComment next (behind.length + 1) behind with
          | none => rw [hthird] at h; cases h
          | some third =>
            rw [hthird] at h
            dsimp only at h
            cases hmax : scanInt third.1 with
            | none => rw [hmax] at h; cases h
            | some m =>
              rw [hmax] at h
              cases h
              exact ⟨magic, rest, size, behind, third.1, m.2, rfl, hmagic, hsecond, hsize, hthird,
                hmax⟩
    · rw [if_pos hmagic] at h
      cases h

/-- A header in front of data is that of a file. -/
theorem wholeHeader_some {picture data : List UInt8}
    (h : wholeHeader picture = some ⟨x, y, maxval, data⟩) (hdata : data ≠ []) :
    ∃ p : PgmFile, p.bytes = picture ∧ p.data = data ∧ p.Header x y maxval := by
  obtain ⟨magic, rest, size, behind, maximum, tail, hfirst, hmagic, hsecond, hsize, hthird, hmax⟩ :=
    readHeader_some h
  obtain ⟨hpicture, hmagicLine⟩ := wholeLine_some hfirst
  obtain ⟨sizeComments, hsc, hrest, hsizeLine⟩ := skipComment_some hsecond
  obtain ⟨maxComments, hmc, hbehind, hmaxLine⟩ := skipComment_some hthird
  have hlines : ∀ line ∈ magic :: size :: maximum :: (sizeComments ++ maxComments),
      IsLine line := by
    simp only [List.forall_mem_cons, List.forall_mem_append]
    exact ⟨hmagicLine (skipComment_ne_nil hsecond), hsizeLine (skipComment_ne_nil hthird),
      hmaxLine hdata, fun c hc => (hsc c hc).1, fun c hc => (hmc c hc).1⟩
  have hcomments : ∀ c ∈ sizeComments ++ maxComments, isComment c = true :=
    List.forall_mem_append.mpr ⟨fun c hc => (hsc c hc).2, fun c hc => (hmc c hc).2⟩
  refine ⟨⟨magic, sizeComments, size, maxComments, maximum, data⟩, ?_, rfl, hlines, hmagic,
    hcomments, hsize, tail, hmax⟩
  rw [hpicture, hrest, hbehind]
  rfl

end Header

/-! ## Lines that are cut -/

/-- What is left of lines: nothing, or bytes up to a line feed. -/
def Ended (left : List UInt8) : Prop := left = [] ∨ left.getLast? = some 10

section Cut
variable {n m turns turns' : Nat} {stream left piece line rest rest' : List UInt8}

theorem IsLine.ended (h : IsLine line) : Ended line := by
  obtain ⟨text, -, rfl⟩ := h
  exact .inr (by simp)

theorem Ended.behind (h : Ended (piece ++ left)) : Ended left := by
  cases left with
  | nil => exact .inl rfl
  | cons c left =>
    refine .inr ?_
    have hlast := h.resolve_left (by simp)
    rwa [List.getLast?_append_of_ne_nil _ (List.cons_ne_nil c left)] at hlast

theorem Ended.append (hpiece : Ended piece) (hleft : Ended left) : Ended (piece ++ left) := by
  obtain rfl | hlast := hleft
  · rwa [List.append_nil]
  · have hne : left ≠ [] := fun h0 => by cases h0 ▸ hlast
    exact .inr ((List.getLast?_append_of_ne_nil _ hne).trans hlast)

/-- A piece goes no further than the next line feed. -/
theorem readLine_within (hleft : left.getLast? = some 10) (hread : readLine n (left ++ stream) = (piece, rest)) :
    ∃ left', left = piece ++ left' ∧ rest = left' ++ stream := by
  induction left generalizing n piece rest with
  | nil => cases hleft
  | cons c left ih =>
    cases n with
    | zero =>
      cases hread
      exact ⟨c :: left, rfl, rfl⟩
    | succ n =>
      rw [List.cons_append, readLine] at hread
      by_cases hc : c = 10
      · rw [if_pos hc] at hread
        cases hread
        exact ⟨left, rfl, rfl⟩
      · rw [if_neg hc] at hread
        have hlast : left.getLast? = some 10 := by
          cases left with
          | nil => exact absurd (Option.some.inj hleft) hc
          | cons d left => rwa [List.getLast?_cons_cons] at hleft
        cases hstep : readLine n (left ++ stream) with
        | mk text behind =>
          rw [hstep] at hread
          cases hread
          obtain ⟨left', hsplit, hbehind⟩ := ih hlast hstep
          exact ⟨left', congrArg (c :: ·) hsplit, hbehind⟩

/-- A piece is the front of a line. -/
theorem readLine_more (hlen : stream.length ≤ m) (hpiece : readLine n stream = (piece, rest))
    (hline : readLine m stream = (line, rest')) : ∃ more, line = piece ++ more ∧ rest = more ++ rest' := by
  induction stream generalizing n m piece rest line rest' with
  | nil =>
    have hsplit := (readLine_whole hlen hline).1
    cases n with
    | zero =>
      cases hpiece
      exact ⟨line, rfl, hsplit⟩
    | succ n =>
      cases hpiece
      exact ⟨line, rfl, hsplit⟩
  | cons c stream ih =>
    cases n with
    | zero =>
      cases hpiece
      exact ⟨line, rfl, (readLine_whole hlen hline).1⟩
    | succ n =>
      cases m with
      | zero => cases hlen
      | succ m =>
        rw [readLine] at hpiece hline
        by_cases hc : c = 10
        · rw [if_pos hc] at hpiece hline
          cases hpiece
          cases hline
          exact ⟨[], rfl, rfl⟩
        · rw [if_neg hc] at hpiece hline
          cases hstep : readLine n stream with
          | mk text behind =>
            cases hstep' : readLine m stream with
            | mk text' behind' =>
              rw [hstep] at hpiece
              rw [hstep'] at hline
              cases hpiece
              cases hline
              obtain ⟨more, hsplit, hbehind⟩ := ih (Nat.le_of_succ_le_succ hlen) hstep hstep'
              exact ⟨more, congrArg (c :: ·) hsplit, hbehind⟩

theorem readLine_head {c : UInt8} (hread : readLine (n + 1) (c :: stream) = (line, rest)) :
    line.head? = some c := by
  rw [readLine] at hread
  split at hread
  · cases hread
    rename_i hc
    rw [hc]
    rfl
  · cases hread
    rfl

/-- What is left of a line, which is a comment if its first piece is one. -/
theorem fgets_more (hpiece : fgets 255 stream = some (piece, rest))
    (hline : wholeLine stream = some (line, rest')) (hne : rest' ≠ []) :
    ∃ more, Ended more ∧ rest = more ++ rest' ∧ isComment line = isComment piece := by
  have hended := ((wholeLine_some hline).2 hne).ended
  unfold fgets at hpiece
  unfold wholeLine at hline
  cases stream with
  | nil => cases hpiece
  | cons c stream =>
    rw [if_neg (List.cons_ne_nil c stream)] at hpiece hline
    obtain ⟨more, hsplit, hbehind⟩ :=
      readLine_more (Nat.le_refl _) (Option.some.inj hpiece) (Option.some.inj hline)
    refine ⟨more, Ended.behind (hsplit ▸ hended), hbehind, ?_⟩
    rw [isComment, isComment, readLine_head (Option.some.inj hline), readLine_head (Option.some.inj hpiece)]

/-- A piece that starts in front of where the lines are read from. -/
theorem fgets_within (hleft : Ended left) (hne : left ≠ [])
    (hpiece : fgets 255 (left ++ stream) = some (piece, rest)) :
    ∃ left', Ended left' ∧ rest = left' ++ stream := by
  unfold fgets at hpiece
  rw [if_neg (List.append_ne_nil_of_left_ne_nil hne _)] at hpiece
  obtain ⟨left', hsplit, hbehind⟩ := readLine_within (hleft.resolve_left hne) (Option.some.inj hpiece)
  exact ⟨left', Ended.behind (hsplit ▸ hleft), hbehind⟩

theorem skipComment_ended (h : skipComment wholeLine turns stream = some (line, rest)) (hne : rest ≠ []) :
    ∃ front, Ended front ∧ stream = front ++ rest := by
  obtain ⟨comments, -, hstream, hline⟩ := skipComment_some h
  have hlast := (hline hne).ended.resolve_left (hline hne).ne_nil
  refine ⟨comments.flatten ++ line, .inr ?_, by rw [hstream, List.append_assoc]⟩
  exact (List.getLast?_append_of_ne_nil _ (hline hne).ne_nil).trans hlast

/-- Comments are skipped piece by piece no further than line by line. -/
theorem skipComment_behind (hleft : Ended left)
    (hcut : skipComment (fgets 255) turns (left ++ stream) = some (piece, rest))
    (hwhole : skipComment wholeLine turns' stream = some (line, rest')) (hne : rest' ≠ []) :
    ∃ left', Ended left' ∧ rest = left' ++ rest' := by
  induction turns generalizing turns' left stream with
  | zero => cases hcut
  | succ turns ih =>
    obtain ⟨_, c, behind, hturns, hnext, hturn⟩ := skipComment_turn hcut
    cases hturns
    by_cases hempty : left = []
    · subst hempty
      obtain ⟨turns'', d, behind', -, hfirst, hturn'⟩ := skipComment_turn hwhole
      have hne' : behind' ≠ [] := by
        obtain ⟨-, hrest⟩ | ⟨-, -, rfl⟩ := hturn'
        · exact skipComment_ne_nil hrest
        · exact hne
      obtain ⟨more, hmore, rfl, hcomment⟩ := fgets_more hnext hfirst hne'
      rw [hcomment] at hturn'
      obtain ⟨hc, hrest⟩ | ⟨hc, -, rfl⟩ := hturn
      · obtain ⟨-, hrest'⟩ | ⟨hc', -⟩ := hturn'
        · exact ih hmore hrest hrest'
        · cases hc.symm.trans hc'
      · obtain ⟨hc', -⟩ | ⟨-, -, rfl⟩ := hturn'
        · cases hc.symm.trans hc'
        · exact ⟨more, hmore, rfl⟩
    · obtain ⟨left', hended, rfl⟩ := fgets_within hleft hempty hnext
      obtain ⟨-, hrest⟩ | ⟨-, -, rfl⟩ := hturn
      · exact ih hended hrest hwhole
      · obtain ⟨front, hfront, rfl⟩ := skipComment_ended hwhole hne
        exact ⟨left' ++ front, hended.append hfront, (List.append_assoc ..).symm⟩

/-- **A header that is cut leaves some of the header in front of the data.** -/
theorem cutHeader_behind {picture : List UInt8} {r r' : Reading} (hcut : cutHeader picture = some r)
    (hwhole : wholeHeader picture = some r') (hne : r'.data ≠ []) :
    ∃ left, Ended left ∧ r.data = left ++ r'.data := by
  obtain ⟨x, y, maxval, data⟩ := r
  obtain ⟨x', y', maxval', data'⟩ := r'
  obtain ⟨magic, rest, size, behind, maximum, tail, hfirst, -, hsecond, -, hthird, -⟩ := readHeader_some hcut
  obtain ⟨magic', rest', size', behind', maximum', tail', hfirst', -, hsecond', -, hthird', -⟩ :=
    readHeader_some hwhole
  obtain ⟨more, hmore, hrest, -⟩ := fgets_more hfirst hfirst' (skipComment_ne_nil hsecond')
  rw [hrest] at hsecond
  obtain ⟨left, hleft, hbehind⟩ := skipComment_behind hmore hsecond hsecond' (skipComment_ne_nil hthird')
  rw [hbehind] at hthird
  exact skipComment_behind hleft hthird hthird' hne

end Cut

/-! ## The rows -/

section Rows
variable {n width : Nat} {maxval : Int} {m : Nat} {stream data : List UInt8}

/-- The first bytes, with those that there are not. -/
def padded (n : Nat) (stream : List UInt8) : List (Option UInt8) :=
  (stream.take n).map some ++ List.replicate (n - stream.length) none

theorem padded_add (a b : Nat) (stream : List UInt8) :
    padded (a + b) stream = padded a stream ++ padded b (stream.drop a) := by
  unfold padded
  rw [List.length_drop, List.take_add, List.map_append, List.append_assoc, List.append_assoc]
  congr 1
  rcases Nat.le_total a stream.length with h | h
  · rw [Nat.sub_eq_zero_of_le h, List.replicate_zero, List.nil_append]
    congr 2
    omega
  · rw [List.drop_of_length_le h, List.take_nil, List.map_nil, List.nil_append, List.nil_append,
      List.replicate_append_replicate]
    congr 1
    omega

theorem readRows_padded (rows : Nat) (stream : List UInt8) :
    readRows width maxval rows stream =
      (padded (width * rows) stream).map (Option.map (scaled maxval)) := by
  induction rows generalizing stream with
  | zero =>
    rw [Nat.mul_zero]
    simp [readRows, padded]
  | succ rows ih =>
    rw [readRows, ih, Nat.mul_succ, Nat.add_comm (width * rows), padded_add, List.map_append]
    rfl

theorem padded_enough (h : n ≤ stream.length) : padded n stream = (stream.take n).map some := by
  simp [padded, Nat.sub_eq_zero_of_le h]

/-- A byte that was not read. -/
theorem none_mem_padded (h : ¬ n ≤ stream.length) : none ∈ padded n stream := by
  have hmissing : none ∈ List.replicate (n - stream.length) (none : Option UInt8) :=
    List.mem_replicate.mpr ⟨by omega, rfl⟩
  exact List.mem_append_right _ hmissing

/-- Two beginnings of the same length, byte by byte. -/
theorem take_map_eq_iff {β : Type} {f g : UInt8 → β} {a b : List UInt8} (ha : n ≤ a.length)
    (hb : n ≤ b.length) :
    (a.take n).map f = (b.take n).map g ↔
      ∀ i < n, ∀ x y, a[i]? = some x → b[i]? = some y → f x = g y := by
  rw [List.ext_getElem?_iff]
  constructor
  · intro h i hi x y hx hy
    have hbyte := h i
    simp only [List.getElem?_map, List.getElem?_take_of_lt hi, hx, hy, Option.map_some] at hbyte
    exact Option.some.inj hbyte
  · intro h i
    by_cases hi : i < n
    · have hx : a[i]? = some _ := List.getElem?_eq_getElem (by omega)
      have hy : b[i]? = some _ := List.getElem?_eq_getElem (by omega)
      simp only [List.getElem?_map, List.getElem?_take_of_lt hi, hx, hy, Option.map_some]
      rw [h i hi _ _ hx hy]
    · simp only [List.getElem?_map, List.getElem?_take_eq_none (Nat.le_of_not_lt hi)]
      rfl

/-- The bytes are those of a picture if and only if all were read, and each has its tone. -/
theorem padded_image_iff (hn : n ≤ data.length) :
    (padded n stream).map (Option.map (scaled maxval)) =
        (data.take n).map (fun raw => some (tone m raw)) ↔
      n ≤ stream.length ∧ ∀ i < n, ∀ raw raw', stream[i]? = some raw → data[i]? = some raw' →
        scaled maxval raw = tone m raw' := by
  by_cases hread : n ≤ stream.length
  · rw [padded_enough hread, List.map_map, take_map_eq_iff hread hn, and_iff_right hread]
    simp only [Function.comp_apply, Option.map_some, Option.some.injEq]
  · refine iff_of_false (fun h => ?_) fun h => hread h.1
    have hnone := List.mem_map_of_mem (f := Option.map (scaled maxval)) (none_mem_padded hread)
    rw [h] at hnone
    obtain ⟨raw, _, hraw⟩ := List.mem_map.mp hnone
    cases hraw

theorem readImage_iff {height : Nat} (hn : width * height ≤ data.length) :
    readImage width height maxval stream =
        .image ((data.take (width * height)).map fun raw => some (tone m raw)) ↔
      width * height < 2 ^ 31 ∧ maxval ≠ 0 ∧ width * height ≤ stream.length ∧
        ∀ i < width * height, ∀ raw raw', stream[i]? = some raw → data[i]? = some raw' →
          scaled maxval raw = tone m raw' := by
  unfold readImage
  by_cases hsize : 2 ^ 31 ≤ width * height
  · rw [if_pos hsize]
    exact iff_of_false nofun fun h => absurd hsize (Nat.not_le_of_lt h.1)
  · rw [if_neg hsize, and_iff_right (Nat.lt_of_not_le hsize)]
    by_cases h0 : maxval = 0
    · rw [if_pos h0]
      exact iff_of_false nofun fun h => h.1 h0
    · rw [if_neg h0, and_iff_right h0, Outcome.image.injEq, readRows_padded]
      exact padded_image_iff hn

/-- A byte is cut by its type to what it is to be cut to, or needs no cut. -/
theorem scaled_iff (m : Nat) (raw : UInt8) :
    scaled m raw = tone m raw ↔
      raw.toNat * 255 / m ≤ 255 ∨ raw.toNat * 255 / m % 256 = 255 := by
  have hdiv : ((raw.toNat : Int) * 255).tdiv m = ((raw.toNat * 255 / m : Nat) : Int) :=
    (Int.ofNat_tdiv (raw.toNat * 255) m).symm
  unfold scaled tone UInt8.ofInt
  rw [hdiv, ← UInt8.toNat_inj, UInt8.toNat_ofNat', UInt8.toNat_ofNat']
  generalize raw.toNat * 255 / m = q
  omega

end Rows

/-! ## What is returned -/

/-- A header that a picture of this size has, with its data. -/
structure Good (width height : Nat) (r : Reading) : Prop where
  x : r.x = width
  y : r.y = height
  lower : 1 ≤ r.maxval
  upper : r.maxval ≤ 255
  enough : width * height ≤ r.data.length

/-- The size check of `get_pgm`. -/
def Passes (toInt : Int → Int) (width height : Nat) (r : Reading) : Prop :=
  toInt r.x = width ∧ toInt r.y = height

instance (toInt : Int → Int) (width height : Nat) (r : Reading) :
    Decidable (Passes toInt width height r) := inferInstanceAs (Decidable (_ ∧ _))

/-- Whatever passes the check is a picture whose size is an `int`, and no byte
of it is cut by its type alone. -/
def Fine (toInt : Int → Int) (width height : Nat) (r : Reading) : Prop :=
  Passes toInt width height r →
    Good width height r ∧ width * height < 2 ^ 31 ∧
      ∀ raw ∈ r.data.take (width * height),
        raw.toNat * 255 / r.maxval.toNat ≤ 255 ∨ raw.toNat * 255 / r.maxval.toNat % 256 = 255

/-- A header that was cut passes exactly if the one of the lines is good, and
its picture is then the same. -/
structure Agrees (toInt : Int → Int) (width height : Nat) (cut whole : Option Reading) : Prop where
  checked : (∃ r, cut = some r ∧ Passes toInt width height r) ↔
    ∃ r, whole = some r ∧ Good width height r
  same : ∀ r r', cut = some r → Passes toInt width height r → whole = some r' →
    Good width height r' → width * height < 2 ^ 31 ∧ toInt r.maxval ≠ 0 ∧
      width * height ≤ r.data.length ∧
        ∀ i < width * height, ∀ raw raw', r.data[i]? = some raw → r'.data[i]? = some raw' →
          scaled (toInt r.maxval) raw = tone r'.maxval.toNat raw'

section Returned
variable {toInt : Int → Int} {width height : Nat} {picture : List UInt8} {outcome : Outcome}

theorem good_of_valid {p : PgmFile} {maxval : Nat} (hbytes : p.bytes = picture)
    (h : p.Valid width height maxval) :
    wholeHeader picture = some ⟨width, height, maxval, p.data⟩ ∧
      Good width height ⟨width, height, maxval, p.data⟩ := by
  rw [← hbytes]
  refine ⟨wholeHeader_file h.header, rfl, rfl, ?_, ?_, h.enough⟩
  · exact Int.ofNat_le.mpr h.lower
  · exact Int.ofNat_le.mpr h.upper

theorem valid_of_good (hpos : 0 < width * height) {r : Reading} (hr : wholeHeader picture = some r)
    (h : Good width height r) :
    ∃ p : PgmFile, p.bytes = picture ∧ p.data = r.data ∧ p.Valid width height r.maxval.toNat := by
  obtain ⟨x, y, maxval, data⟩ := r
  obtain ⟨hx, hy, hlower, hupper, henough⟩ := h
  dsimp only at hx hy hlower hupper henough ⊢
  have hdata : data ≠ [] := List.length_pos_iff.mp (hpos.trans_le henough)
  obtain ⟨p, hp, hpdata, hheader⟩ := wholeHeader_some hr hdata
  have hmaxval : (maxval.toNat : Int) = maxval := Int.toNat_of_nonneg (by omega)
  refine ⟨p, hp, hpdata, ⟨?_, by omega, by omega, by rwa [hpdata]⟩⟩
  rwa [hmaxval, ← hx, ← hy]

/-- A good header has its picture returned. -/
theorem meets_good (hpos : 0 < width * height) {r : Reading} (hr : wholeHeader picture = some r)
    (h : Good width height r) :
    Meets width height picture outcome ↔
      outcome = .image ((r.data.take (width * height)).map
        fun raw => some (tone r.maxval.toNat raw)) := by
  obtain ⟨p, hp, hdata, hvalid⟩ := valid_of_good hpos hr h
  constructor
  · intro hm
    rw [← hdata]
    exact hm.accepted p _ hp hvalid
  · intro ho
    refine ⟨fun q maxval hq hqvalid => ?_, fun hnone => absurd ⟨p, _, hp, hvalid⟩ hnone⟩
    have hsame := (good_of_valid hq hqvalid).1
    rw [hr] at hsame
    rw [ho, Option.some.inj hsame]
    rfl

/-- Without one `NULL` is. -/
theorem meets_null
    (h : ¬ ∃ r, wholeHeader picture = some r ∧ Good width height r) :
    Meets width height picture outcome ↔ outcome = .null := by
  have hnone : ¬ ∃ (p : PgmFile) (maxval : Nat), p.bytes = picture ∧ p.Valid width height maxval := by
    rintro ⟨p, maxval, hp, hvalid⟩
    exact h ⟨_, good_of_valid hp hvalid⟩
  exact ⟨fun hm => hm.rejected hnone,
    fun ho => ⟨fun p maxval hp hvalid => absurd ⟨p, maxval, hp, hvalid⟩ hnone, fun _ => ho⟩⟩

theorem getPgm_passes {r : Reading} (hr : cutHeader picture = some r)
    (h : Passes toInt width height r) :
    getPgm toInt width height picture = readImage width height (toInt r.maxval) r.data := by
  have hcheck : ¬ (toInt r.x ≠ width ∨ toInt r.y ≠ height) := fun hor =>
    hor.elim (fun hne => hne h.1) (fun hne => hne h.2)
  rw [getPgm_cutHeader, hr]
  exact if_neg hcheck

theorem getPgm_null (h : ¬ ∃ r, cutHeader picture = some r ∧ Passes toInt width height r) :
    getPgm toInt width height picture = .null := by
  rw [getPgm_cutHeader]
  cases hr : cutHeader picture with
  | none => rfl
  | some r =>
    have hcheck : toInt r.x ≠ width ∨ toInt r.y ≠ height := by
      by_contra hboth
      rw [not_or, not_not, not_not] at hboth
      exact h ⟨r, hr, hboth⟩
    exact if_pos hcheck

theorem readImage_ne_null (maxval : Int) (stream : List UInt8) :
    readImage width height maxval stream ≠ .null := by
  unfold readImage
  split
  · nofun
  · split
    · nofun
    · nofun

/-- The outcome is right exactly if the two headers agree. -/
theorem getPgm_agrees_iff (hpos : 0 < width * height) :
    Meets width height picture (getPgm toInt width height picture) ↔
      Agrees toInt width height (cutHeader picture) (wholeHeader picture) := by
  by_cases hpass : ∃ r, cutHeader picture = some r ∧ Passes toInt width height r
  · by_cases hgood : ∃ r, wholeHeader picture = some r ∧ Good width height r
    · obtain ⟨r, hr, hrpass⟩ := hpass
      obtain ⟨r', hr', hgood⟩ := hgood
      rw [meets_good hpos hr' hgood, getPgm_passes hr hrpass, readImage_iff hgood.enough]
      constructor
      · intro h
        refine ⟨iff_of_true ⟨r, hr, hrpass⟩ ⟨r', hr', hgood⟩, ?_⟩
        intro s s' hs _ hs' _
        rw [hr] at hs
        rw [hr'] at hs'
        cases hs
        cases hs'
        exact h
      · exact fun h => h.same r r' hr hrpass hr' hgood
    · rw [meets_null hgood]
      refine iff_of_false (fun h => ?_) fun h => hgood (h.checked.mp hpass)
      obtain ⟨r, hr, hrpass⟩ := hpass
      rw [getPgm_passes hr hrpass] at h
      exact readImage_ne_null _ _ h
  · rw [getPgm_null hpass]
    by_cases hgood : ∃ r, wholeHeader picture = some r ∧ Good width height r
    · refine iff_of_false (fun h => ?_) fun h => hpass (h.checked.mpr hgood)
      obtain ⟨r, hr, hgood⟩ := hgood
      rw [meets_good hpos hr hgood] at h
      cases h
    · rw [meets_null hgood]
      refine iff_of_true rfl ⟨iff_of_false hpass hgood, fun r r' hr hrpass _ _ => ?_⟩
      exact absurd ⟨r, hr, hrpass⟩ hpass

section Ints
variable (hint : ∀ n : Int, -2 ^ 31 ≤ n → n < 2 ^ 31 → toInt n = n)
include hint

theorem Good.passes (hwidth : width < 2 ^ 31) (hheight : height < 2 ^ 31) {r : Reading}
    (h : Good width height r) : Passes toInt width height r := by
  constructor
  · rw [h.x, hint _ (by omega) (by omega)]
  · rw [h.y, hint _ (by omega) (by omega)]

theorem Good.maxval {r : Reading} (h : Good width height r) :
    toInt r.maxval = r.maxval.toNat ∧ toInt r.maxval ≠ 0 := by
  have hlower := h.lower
  have hupper := h.upper
  rw [hint r.maxval (by omega) (by omega), Int.toNat_of_nonneg (by omega)]
  exact ⟨rfl, by omega⟩

theorem Good.tone_iff {r : Reading} (h : Good width height r) (raw : UInt8) :
    scaled (toInt r.maxval) raw = tone r.maxval.toNat raw ↔
      raw.toNat * 255 / r.maxval.toNat ≤ 255 ∨ raw.toNat * 255 / r.maxval.toNat % 256 = 255 := by
  rw [(h.maxval hint).1]
  exact scaled_iff r.maxval.toNat raw

theorem fine_of_agrees {cut : Option Reading} (h : Agrees toInt width height cut cut) {r : Reading}
    (hr : cut = some r) : Fine toInt width height r := by
  intro hpass
  obtain ⟨s, hs, hgood⟩ := h.checked.mp ⟨r, hr, hpass⟩
  have hrs : r = s := Option.some.inj (hr.symm.trans hs)
  rw [← hrs] at hgood
  obtain ⟨hsize, _, _, hsame⟩ := h.same r r hr hpass hr hgood
  refine ⟨hgood, hsize, fun raw hraw => (hgood.tone_iff hint raw).mp ?_⟩
  obtain ⟨i, hi⟩ := List.mem_iff_getElem?.mp hraw
  rw [List.getElem?_take] at hi
  split at hi
  · rename_i hlt
    exact hsame i hlt raw raw hi hi
  · cases hi

theorem agrees_of_fine (hwidth : width < 2 ^ 31) (hheight : height < 2 ^ 31) {cut : Option Reading}
    (h : ∀ r, cut = some r → Fine toInt width height r) : Agrees toInt width height cut cut := by
  constructor
  · constructor
    · rintro ⟨r, hr, hpass⟩
      exact ⟨r, hr, (h r hr hpass).1⟩
    · rintro ⟨r, hr, hgood⟩
      exact ⟨r, hr, hgood.passes hint hwidth hheight⟩
  · intro r s hr hpass hs hgood
    have hrs : s = r := Option.some.inj (hs.symm.trans hr)
    rw [hrs] at hgood ⊢
    obtain ⟨_, hsize, hall⟩ := h r hr hpass
    refine ⟨hsize, (hgood.maxval hint).2, hgood.enough, fun i hi raw raw' hraw hraw' => ?_⟩
    have hsame : raw = raw' := Option.some.inj (hraw.symm.trans hraw')
    have hmem : raw ∈ r.data.take (width * height) :=
      List.mem_iff_getElem?.mpr ⟨i, by rwa [List.getElem?_take_of_lt hi]⟩
    rw [← hsame]
    exact (hgood.tone_iff hint raw).mpr (hall raw hmem)

/-- A header agrees with itself exactly if it is fine. -/
theorem agrees_self_iff (hwidth : width < 2 ^ 31) (hheight : height < 2 ^ 31)
    (cut : Option Reading) :
    Agrees toInt width height cut cut ↔ ∀ r, cut = some r → Fine toInt width height r :=
  ⟨fun h _ hr => fine_of_agrees hint h hr, agrees_of_fine hint hwidth hheight⟩

end Ints

/-- What does not tell a header that was cut: neither it nor the one of the lines is
of a picture of this size, or both are and what it leaves of the header, which comes first
in the data, moves no byte to one of another tone. -/
inductive Unharmed (toInt : Int → Int) (width height : Nat) (cut whole : Option Reading) : Prop
  | rejected (hcut : ∀ r, cut = some r → ¬ Passes toInt width height r)
      (hwhole : ∀ r, whole = some r → ¬ Good width height r)
  | shifted (r r' : Reading) (left : List UInt8) (hcut : cut = some r) (hpass : Passes toInt width height r)
      (hwhole : whole = some r') (hgood : Good width height r') (hended : Ended left)
      (hdata : r.data = left ++ r'.data) (hsize : width * height < 2 ^ 31) (hmaxval : toInt r.maxval ≠ 0)
      (hsame : ∀ i < width * height, ∀ raw raw', (left ++ r'.data)[i]? = some raw → r'.data[i]? = some raw' →
        scaled (toInt r.maxval) raw = tone r'.maxval.toNat raw')

theorem agrees_iff_unharmed (hpos : 0 < width * height) :
    Agrees toInt width height (cutHeader picture) (wholeHeader picture) ↔
      Unharmed toInt width height (cutHeader picture) (wholeHeader picture) := by
  constructor
  · intro h
    by_cases hgood : ∃ r, wholeHeader picture = some r ∧ Good width height r
    · obtain ⟨r, hr, hpass⟩ := h.checked.mpr hgood
      obtain ⟨r', hr', hgood⟩ := hgood
      obtain ⟨hsize, hmaxval, -, hsame⟩ := h.same r r' hr hpass hr' hgood
      obtain ⟨left, hended, hdata⟩ :=
        cutHeader_behind hr hr' (List.length_pos_iff.mp (hpos.trans_le hgood.enough))
      rw [hdata] at hsame
      exact .shifted r r' left hr hpass hr' hgood hended hdata hsize hmaxval hsame
    · refine .rejected (fun r hr hpass => hgood (h.checked.mp ⟨r, hr, hpass⟩)) fun r hr hrgood => ?_
      exact hgood ⟨r, hr, hrgood⟩
  · rintro (⟨hcut, hwhole⟩ | ⟨r, r', left, hcut, hpass, hwhole, hgood, -, hdata, hsize, hmaxval, hsame⟩)
    · refine ⟨iff_of_false ?_ ?_, fun r r' hr hpass _ _ => absurd hpass (hcut r hr)⟩
      · rintro ⟨r, hr, hpass⟩
        exact hcut r hr hpass
      · rintro ⟨r, hr, hgood⟩
        exact hwhole r hr hgood
    · refine ⟨iff_of_true ⟨r, hcut, hpass⟩ ⟨r', hwhole, hgood⟩, fun s s' hs _ hs' _ => ?_⟩
      obtain rfl : r = s := Option.some.inj (hcut.symm.trans hs)
      obtain rfl : r' = s' := Option.some.inj (hwhole.symm.trans hs')
      have henough := hgood.enough
      rw [hdata, List.length_append]
      exact ⟨hsize, hmaxval, by omega, hsame⟩

/-- The two readings of the header are the same, and fine; or they differ, and no harm is done. -/
def Holds (toInt : Int → Int) (width height : Nat) (picture : List UInt8) : Prop :=
  (cutHeader picture = wholeHeader picture ∧
      ∀ r, wholeHeader picture = some r → Fine toInt width height r) ∨
    (cutHeader picture ≠ wholeHeader picture ∧
      Unharmed toInt width height (cutHeader picture) (wholeHeader picture))

/-- **`get_pgm` returns the picture that the file is, or `NULL`, exactly if every header
that passes its size check is that of a picture which the type of a byte cuts as it should.** -/
theorem getPgm_meets_iff (hint : ∀ n : Int, -2 ^ 31 ≤ n → n < 2 ^ 31 → toInt n = n)
    (hwidth : 1 ≤ width) (hwidth' : width < 2 ^ 31) (hheight : 1 ≤ height)
    (hheight' : height < 2 ^ 31) (picture : List UInt8) :
    Meets width height picture (getPgm toInt width height picture) ↔
      Holds toInt width height picture := by
  have hpos : 0 < width * height := Nat.mul_pos hwidth hheight
  rw [getPgm_agrees_iff hpos]
  unfold Holds
  by_cases hsame : cutHeader picture = wholeHeader picture
  · rw [hsame, agrees_self_iff hint hwidth' hheight']
    exact ⟨fun h => .inl ⟨rfl, h⟩, fun h => h.elim And.right fun h => absurd rfl h.1⟩
  · rw [agrees_iff_unharmed hpos]
    exact ⟨fun h => .inr ⟨hsame, h⟩, fun h => h.elim (fun h => absurd h.1 hsame) And.right⟩

end Returned

/-! ## On a file -/

/-- The `int` that keeps the low bits of a number. -/
def lowInt (n : Int) : Int := n.bmod (2 ^ 32)

theorem lowInt_eq (n : Int) (hlo : -2 ^ 31 ≤ n) (hhi : n < 2 ^ 31) : lowInt n = n :=
  Int.bmod_eq_of_le (by omega) (by omega)

theorem getPgm_meets_small :
    Meets 2 1 (ofText "P5\n# mask\n2 1\n255\nab")
      (getPgm lowInt 2 1 (ofText "P5\n# mask\n2 1\n255\nab")) := by
  have hwhole : wholeHeader (ofText "P5\n# mask\n2 1\n255\nab") = some ⟨2, 1, 255, ofText "ab"⟩ := by
    decide +kernel
  refine (getPgm_meets_iff lowInt_eq (by decide) (by decide) (by decide) (by decide) _).mpr
    (.inl ⟨by decide +kernel, fun r hr _ => ?_⟩)
  rw [hwhole] at hr
  cases hr
  exact ⟨⟨rfl, rfl, by decide, by decide, by decide⟩, by decide, by decide +kernel⟩

/-- A maximum of 0 is divided by, and an image without data is returned. -/
theorem zero_maximum_not_meets :
    ¬ Meets 1 1 (ofText "P5\n1 1\n0\na") (getPgm lowInt 1 1 (ofText "P5\n1 1\n0\na")) ∧
      ¬ Meets 1 1 (ofText "P5\n1 1\n255\n") (getPgm lowInt 1 1 (ofText "P5\n1 1\n255\n")) := by
  constructor
  · have hwhole : wholeHeader (ofText "P5\n1 1\n0\na") = some ⟨1, 1, 0, ofText "a"⟩ := by
      decide +kernel
    have houtcome : getPgm lowInt 1 1 (ofText "P5\n1 1\n0\na") = .undefined := by decide +kernel
    rw [houtcome, meets_null]
    · nofun
    · rintro ⟨r, hr, hgood⟩
      rw [hwhole] at hr
      cases hr
      exact absurd hgood.lower (by decide)
  · have hwhole : wholeHeader (ofText "P5\n1 1\n255\n") = some ⟨1, 1, 255, []⟩ := by decide +kernel
    have houtcome : getPgm lowInt 1 1 (ofText "P5\n1 1\n255\n") = .image [none] := by decide +kernel
    rw [houtcome, meets_null]
    · nofun
    · rintro ⟨r, hr, hgood⟩
      rw [hwhole] at hr
      cases hr
      exact absurd hgood.enough (by decide)

end SmartPrince.Common.PgmSoundness
