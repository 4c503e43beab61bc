import SmartPrince.Net.RequestLineSoundness

/-! # The fields of an HTTP header

One turn of the parser's loop takes a line, cuts it at the first colon and
appends a field, whether or not the line had one. The line's array is used
again for every line, the arrays of the name and the value are new each time. -/
namespace SmartPrince.Net.HeaderSoundness
open SmartPrince.Lib.CString SmartPrince.Net.HttpParser

/-! ## Strings in arrays -/

theorem cstr_zeros (n : Nat) : cstr (zeros n) = [] := by
  cases n with
  | zero => rfl
  | succ n => rfl

/-- A field as the two strings in it. -/
def strings (f : HttpHeaderField) : List UInt8 × List UInt8 := (cstr f.name, cstr f.value)

/-- The field appended to a list has the name and the value, as far as they fit. -/
theorem strings_append (fields : List HttpHeaderField) (name value : List UInt8) :
    (sAppendHeaderField fields name value).map strings =
      fields.map strings ++ [((cstr name).take 99, (cstr value).take 511)] := by
  have hname := cstr_snprintf (zeros 100) 100 (cstr_no_nul name)
  have hvalue := cstr_snprintf (zeros 512) 512 (cstr_no_nul value)
  rw [sAppendHeaderField, List.map_append, List.map_singleton, strings, hname, hvalue]

/-! ## One line -/

/-- What is known of a line that leaves `name` and `value` in the two arrays,
whatever lies behind it in its own and below it on the stack. -/
structure Reads (text name value : List UInt8) : Prop where
  chars : ∀ c ∈ text, c ≠ 0 ∧ c ≠ 13
  length : text.length ≤ 1023
  name : ∀ junk below, cstr (sParseHeaderField 100 128
    ⟨text ++ 0 :: junk, below, zeros 100, zeros 128⟩).2.name = name
  value : ∀ junk below, cstr (sParseHeaderField 100 128
    ⟨text ++ 0 :: junk, below, zeros 100, zeros 128⟩).2.value = value

/-- A line without a colon, or of white space, leaves both as they were. -/
theorem reads_malformed {text : List UInt8} (hchars : ∀ c ∈ text, c ≠ 0 ∧ c ≠ 13)
    (hlength : text.length ≤ 1023) (h : (∀ c ∈ text, isspace c = true) ∨ 58 ∉ text) :
    Reads text [] [] := by
  have h0 : 0 ∉ text := fun hm => (hchars 0 hm).1 rfl
  have hparse : ∀ junk below, (sParseHeaderField 100 128
      ⟨text ++ 0 :: junk, below, zeros 100, zeros 128⟩).2 =
        ⟨text ++ 0 :: junk, below, zeros 100, zeros 128⟩ := by
    intro junk below
    have hfirst := @sFirstNotSpace_text text junk h0
    cases hd : text.dropWhile isspace with
    | nil =>
      rw [hd] at hfirst
      simp only [sParseHeaderField, hfirst]
    | cons c t =>
      rw [hd] at hfirst
      have hsub : ∀ x ∈ c :: t, x ∈ text := fun x hx =>
        (List.dropWhile_sublist isspace).mem (hd ▸ hx)
      have h58 : 58 ∉ c :: t := by
        rcases h with h | h
        · rw [List.dropWhile_eq_nil_iff.mpr h] at hd
          cases hd
        · exact fun hx => h (hsub 58 hx)
      have hfind : sFind (c :: (t ++ 0 :: junk)) 58 = none :=
        sFind_missing (a := c :: t) (fun hx => h0 (hsub 0 hx)) h58
      simp only [sParseHeaderField, hfirst, hfind]
  refine ⟨hchars, hlength, fun junk below => ?_, fun junk below => ?_⟩
  · rw [hparse, cstr_zeros]
  · rw [hparse, cstr_zeros]

/-- A line of a name, a colon, white space and a value. -/
structure FieldLine where
  name : List UInt8
  blank : List UInt8
  value : List UInt8
  name_length : 1 ≤ name.length ∧ name.length ≤ 99
  name_chars : ∀ c ∈ name, c ≠ 0 ∧ c ≠ 13 ∧ c ≠ 58
  name_head : ∀ c ∈ name.head?, isspace c = false
  name_last : ∀ c ∈ name.getLast?, isspace c = false
  blank_space : ∀ c ∈ blank, isspace c = true ∧ c ≠ 13
  value_length : 1 ≤ value.length
  value_chars : ∀ c ∈ value, c ≠ 0 ∧ c ≠ 13
  value_head : ∀ c ∈ value.head?, isspace c = false

def FieldLine.text (f : FieldLine) : List UInt8 := f.name ++ 58 :: (f.blank ++ f.value)

theorem FieldLine.no_nul (f : FieldLine) : 0 ∉ f.name ∧ 0 ∉ f.blank ∧ 0 ∉ f.value := by
  refine ⟨fun h => (f.name_chars 0 h).1 rfl, fun h => ?_, fun h => (f.value_chars 0 h).1 rfl⟩
  have hspace := (f.blank_space 0 h).1
  rw [isspace_zero] at hspace
  cases hspace

/-- A name that does not end with white space is not trimmed. -/
theorem sRtrim_name {name : List UInt8} (hname : name ≠ [])
    (h : ∀ c ∈ name.getLast?, isspace c = false) (below : List UInt8) :
    sRtrim (name.reverse ++ below) = name.reverse ++ below := by
  obtain ⟨t, c, rfl⟩ := List.eq_nil_or_concat name |>.resolve_left hname
  have hc : isspace c = false := h c (by simp)
  rw [List.concat_eq_append, List.reverse_append, List.reverse_singleton, List.singleton_append,
    List.cons_append, sRtrim, if_neg (by rw [hc]; decide)]

theorem FieldLine.parse (f : FieldLine) (junk below name value : List UInt8) :
    sParseHeaderField 100 128 ⟨f.text ++ 0 :: junk, below, name, value⟩ =
      (0, ⟨f.name ++ 0 :: (f.blank ++ (f.value ++ 0 :: junk)), below,
        overwrite name (snprintf 100 f.name), overwrite value (snprintf 128 f.value)⟩) := by
  obtain ⟨hn0, -, hv0⟩ := f.no_nul
  obtain ⟨c, t, hct⟩ := List.exists_cons_of_length_pos (l := f.name) f.name_length.1
  obtain ⟨x, q, hxq⟩ := List.exists_cons_of_length_pos (l := f.value) f.value_length
  generalize hrest : f.blank ++ (f.value ++ 0 :: junk) = rest
  have hline : f.text ++ 0 :: junk = f.name ++ 58 :: rest := by
    rw [← hrest, FieldLine.text, List.append_assoc, List.cons_append, List.append_assoc]
  have hfirst : sFirstNotSpace (f.name ++ 58 :: rest) = some (f.name ++ 58 :: rest) := by
    have hc0 : c ≠ 0 := fun h => hn0 (by rw [hct, h]; exact List.mem_cons_self)
    have hc : isspace c = false := f.name_head c (by rw [hct]; rfl)
    rw [hct]
    exact @sFirstNotSpace_found [] _ _ (fun _ h => absurd h List.not_mem_nil) hc0 hc
  have hfind : sFind (f.name ++ 58 :: rest) 58 = some (58 :: rest) :=
    sFind_found (by decide) hn0 fun h => (f.name_chars 58 h).2.2 rfl
  have hvalue : sFirstNotSpace rest = some (f.value ++ 0 :: junk) := by
    have hx0 : x ≠ 0 := fun h => hv0 (by rw [hxq, h]; exact List.mem_cons_self)
    have hx : isspace x = false := f.value_head x (by rw [hxq]; rfl)
    rw [← hrest, hxq]
    exact sFirstNotSpace_found (fun y hy => (f.blank_space y hy).1) hx0 hx
  have htrim : sRtrim (f.name.reverse ++ below) = f.name.reverse ++ below :=
    sRtrim_name (by rw [hct]; exact List.cons_ne_nil _ _) f.name_last below
  have hstart : (f.name ++ 58 :: rest).length - (58 :: rest).length = f.name.reverse.length := by
    rw [List.length_append, Nat.add_sub_cancel, List.length_reverse]
  have htake : (f.name ++ 58 :: rest).take f.name.reverse.length = f.name := by
    rw [List.length_reverse, List.take_left]
  rw [hline]
  simp only [sParseHeaderField, hfirst, hfind, hstart, htake, htrim, List.take_left, List.drop_left,
    List.reverse_reverse, List.tail_cons, hvalue, Nat.sub_self, List.drop_zero, cstr_nul hn0,
    cstr_nul hv0]

theorem FieldLine.chars (f : FieldLine) : ∀ c ∈ f.text, c ≠ 0 ∧ c ≠ 13 := by
  intro c hc
  simp only [FieldLine.text, List.mem_append, List.mem_cons] at hc
  rcases hc with hc | rfl | hc | hc
  · obtain ⟨h0, h13, _⟩ := f.name_chars c hc
    exact ⟨h0, h13⟩
  · decide
  · exact ⟨fun h => f.no_nul.2.1 (h ▸ hc), (f.blank_space c hc).2⟩
  · exact f.value_chars c hc

/-- A field that fits its line leaves its name, and what there is room for of its value. -/
theorem FieldLine.reads (f : FieldLine) (hlength : f.text.length ≤ 1023) :
    Reads f.text f.name (f.value.take 127) := by
  obtain ⟨hn0, -, hv0⟩ := f.no_nul
  refine ⟨f.chars, hlength, fun junk below => ?_, fun junk below => ?_⟩
  · rw [f.parse, cstr_snprintf _ _ hn0, List.take_of_length_le f.name_length.2]
  · rw [f.parse, cstr_snprintf _ _ hv0]

/-! ## All lines -/

/-- Lines, each ended by CR LF. -/
def block (lines : List (List UInt8)) : List UInt8 := lines.flatMap fun text => text ++ [13, 10]

theorem block_length (lines : List (List UInt8)) : lines.length ≤ (block lines).length := by
  induction lines with
  | nil => exact Nat.zero_le _
  | cons text lines ih =>
    rw [block, List.flatMap_cons, ← block]
    simp only [List.length_append, List.length_cons, List.length_nil]
    omega

/-- A line is read as it stands, over whatever its array held. -/
theorem sReadHeaderLine_line {text : List UInt8} (hchars : ∀ c ∈ text, c ≠ 0 ∧ c ≠ 13)
    (hlength : text.length ≤ 1023) (rest buf : List UInt8) :
    ∃ junk, sReadHeaderLine (text ++ 13 :: 10 :: rest) buf 1024 = (some rest, text ++ 0 :: junk) := by
  have h0 : 0 ∉ text := fun h => (hchars 0 h).1 rfl
  have h13 : 13 ∉ text := fun h => (hchars 13 h).2 rfl
  have hfind : sFind (text ++ 13 :: 10 :: rest) 13 = some (13 :: 10 :: rest) :=
    sFind_found (by decide) h0 h13
  have hlen : (text ++ 13 :: 10 :: rest).length - (13 :: 10 :: rest).length = text.length := by
    rw [List.length_append, Nat.add_sub_cancel]
  refine ⟨buf.drop (text ++ [0]).length, ?_⟩
  simp only [sReadHeaderLine, hfind, hlen]
  rw [if_neg (by omega), snprintf, Nat.add_sub_cancel, cstr_append h0, List.take_left, overwrite,
    List.append_assoc]
  rfl

/-- **Every line appends the field it leaves, in the order of the lines.** -/
theorem headerLines_lines {lines : List (List UInt8 × List UInt8 × List UInt8)}
    (hreads : ∀ l ∈ lines, Reads l.1 l.2.1 l.2.2) {turns : Nat} (hturns : lines.length < turns)
    (s : Scratch) (fields : List HttpHeaderField) (behind : List UInt8) :
    (headerLines turns (block (lines.map Prod.fst) ++ 0 :: behind) s fields).map strings =
      fields.map strings ++ lines.map fun l => (l.2.1.take 99, l.2.2.take 511) := by
  induction lines generalizing turns s fields with
  | nil =>
    cases turns with
    | zero => exact absurd hturns (Nat.lt_irrefl 0)
    | succ turns =>
      have hfind : sFind (0 :: behind) 13 = none :=
        sFind_missing (a := []) List.not_mem_nil List.not_mem_nil
      have hread : sReadHeaderLine (0 :: behind) s.line 1024 =
          (none, overwrite s.line (snprintf 1024 (cstr (0 :: behind)))) := by
        simp only [sReadHeaderLine, hfind]
      show (headerLines (turns + 1) (0 :: behind) s fields).map strings = fields.map strings ++ []
      rw [headerLines, hread, List.append_nil]
  | cons l lines ih =>
    cases turns with
    | zero => exact absurd hturns (Nat.not_lt_zero _)
    | succ turns =>
      obtain ⟨hl, hrest⟩ := List.forall_mem_cons.mp hreads
      obtain ⟨junk, hread⟩ := sReadHeaderLine_line hl.chars hl.length
        (block (lines.map Prod.fst) ++ 0 :: behind) s.line
      have hblock : block ((l :: lines).map Prod.fst) ++ 0 :: behind =
          l.1 ++ 13 :: 10 :: (block (lines.map Prod.fst) ++ 0 :: behind) := by
        rw [List.map_cons, block, List.flatMap_cons, ← block, List.append_assoc, List.append_assoc]
        rfl
      rw [hblock, headerLines, hread]
      dsimp only
      rw [ih hrest (Nat.lt_of_succ_lt_succ hturns), strings_append, hl.name, hl.value,
        List.append_assoc, List.map_cons, List.singleton_append]

theorem parseHttpHeader_lines (lines : List (List UInt8 × List UInt8 × List UInt8))
    (hreads : ∀ l ∈ lines, Reads l.1 l.2.1 l.2.2) (below behind : List UInt8) :
    (parseHttpHeader (block (lines.map Prod.fst) ++ 0 :: behind) below []).map strings =
      lines.map fun l => (l.2.1.take 99, l.2.2.take 511) := by
  have hlen := block_length (lines.map Prod.fst)
  rw [List.length_map] at hlen
  rw [parseHttpHeader, sParseHeaderFields, headerLines_lines hreads]
  · rfl
  · rw [List.length_append]
    omega

/-! ## Looking a field up -/

/-- A line of a header: a field that the arrays have room for, or one that is none. -/
inductive HeaderLine where
  | field (f : FieldLine) (length : f.text.length ≤ 1023) (value_length : f.value.length ≤ 127)
  | malformed (text : List UInt8) (chars : ∀ c ∈ text, c ≠ 0 ∧ c ≠ 13)
      (length : text.length ≤ 1023) (h : (∀ c ∈ text, isspace c = true) ∨ 58 ∉ text)

def HeaderLine.text : HeaderLine → List UInt8
  | .field f _ _ => f.text
  | .malformed text _ _ _ => text

/-- The name and the value that a line stands for. -/
def HeaderLine.strings : HeaderLine → List UInt8 × List UInt8
  | .field f _ _ => (f.name, f.value)
  | .malformed _ _ _ _ => ([], [])

/-- The letters of ASCII, in both cases. -/
def letters : List (UInt8 × UInt8) :=
  (ofText "ABCDEFGHIJKLMNOPQRSTUVWXYZ").zip (ofText "abcdefghijklmnopqrstuvwxyz")

/-- The same character, or one letter in both cases. -/
def SameChar (c d : UInt8) : Prop := c = d ∨ (c, d) ∈ letters ∨ (d, c) ∈ letters

instance (c d : UInt8) : Decidable (SameChar c d) := inferInstanceAs (Decidable (_ ∨ _))

/-- Names that differ in the case of letters at most. -/
def SameName (a b : List UInt8) : Prop :=
  a.length = b.length ∧ ∀ p ∈ a.zip b, SameChar p.1 p.2

instance (a b : List UInt8) : Decidable (SameName a b) :=
  @instDecidableAnd _ _ _ (List.decidableBAll _ (a.zip b))

/-- The value of the first field with this name. -/
def lookup (lines : List HeaderLine) (name : List UInt8) : Option (List UInt8) :=
  lines.findSome? fun
    | .field f _ _ => if SameName f.name name then some f.value else none
    | .malformed _ _ _ _ => none

/-- The lower case of a letter stands right behind it in the table. -/
theorem mem_letters {c d : UInt8} : (c, d) ∈ letters ↔ 65 ≤ c ∧ c ≤ 90 ∧ d = c + 32 := by
  constructor
  · intro h
    have hall : letters.all fun p => 65 ≤ p.1 && p.1 ≤ 90 && p.2 == p.1 + 32 := by decide
    simpa [and_assoc] using List.all_eq_true.mp hall (c, d) h
  · rintro ⟨hlo, hhi, rfl⟩
    have hall : ∀ n ∈ List.range 26, (UInt8.ofNat (65 + n), UInt8.ofNat (65 + n) + 32) ∈ letters := by
      decide +kernel
    rw [UInt8.le_iff_toNat_le] at hlo hhi
    have hlo' : 65 ≤ c.toNat := hlo
    have hhi' : c.toNat ≤ 90 := hhi
    have hc : UInt8.ofNat (65 + (c.toNat - 65)) = c := by
      rw [Nat.add_sub_of_le hlo', UInt8.ofNat_toNat]
    have hmem := hall (c.toNat - 65) (List.mem_range.mpr (by omega))
    rwa [hc] at hmem

theorem tolower_eq_iff {c d : UInt8} : tolower c = tolower d ↔ SameChar c d := by
  rw [SameChar, mem_letters, mem_letters]
  unfold tolower
  grind

theorem map_tolower_eq_iff {a b : List UInt8} : a.map tolower = b.map tolower ↔ SameName a b := by
  induction a generalizing b with
  | nil => cases b <;> simp [SameName]
  | cons c a ih =>
    cases b with
    | nil => simp [SameName]
    | cons d b =>
      rw [List.map_cons, List.map_cons, List.cons.injEq, tolower_eq_iff, ih]
      simp only [SameName, List.length_cons, Nat.add_right_cancel_iff, List.zip_cons_cons,
        List.forall_mem_cons]
      exact and_left_comm

theorem HeaderLine.reads (l : HeaderLine) : Reads l.text l.strings.1 l.strings.2 := by
  cases l with
  | field f hlength hvalue =>
    have h := f.reads hlength
    rwa [List.take_of_length_le hvalue] at h
  | malformed text hchars hlength h => exact reads_malformed hchars hlength h

theorem HeaderLine.strings_take (l : HeaderLine) :
    (l.strings.1.take 99, l.strings.2.take 511) = l.strings := by
  cases l with
  | field f hlength hvalue =>
    simp only [HeaderLine.strings]
    rw [List.take_of_length_le f.name_length.2, List.take_of_length_le (by omega)]
  | malformed text hchars hlength h => rfl

/-- The search sees of each field the two strings only. -/
theorem getHeaderField_strings (fields : List HttpHeaderField) (name : List UInt8) :
    (getHeaderField fields name).map cstr = ((fields.map strings).find? fun nv =>
      nv.1.map tolower == (cstr name).map tolower).map Prod.snd := by
  rw [getHeaderField, sGetHeaderField, List.find?_map, Option.map_map, Option.map_map]
  rfl

theorem find_strings {lines : List HeaderLine} {name : List UInt8} (hname : name ≠ []) :
    ((lines.map HeaderLine.strings).find? fun nv => nv.1.map tolower == name.map tolower).map
      Prod.snd = lookup lines name := by
  induction lines with
  | nil => rfl
  | cons l lines ih =>
    rw [List.map_cons, lookup, List.findSome?_cons, ← lookup]
    cases l with
    | field f hlength hvalue =>
      by_cases hf : SameName f.name name
      · have hfound := map_tolower_eq_iff.mpr hf
        rw [List.find?_cons_of_pos (by simpa [HeaderLine.strings] using hfound)]
        simp only [hf, if_true]
        rfl
      · have hpassed := mt map_tolower_eq_iff.mp hf
        rw [List.find?_cons_of_neg (by simpa [HeaderLine.strings] using hpassed), ih]
        simp only [hf, if_false]
    | malformed text hchars hlength h =>
      rw [List.find?_cons_of_neg (by simpa [HeaderLine.strings] using Ne.symm hname), ih]

/-- **A field is found by its name, whatever lines come before it.** The value
is that of the first well-formed line with this name, in upper or lower case;
without one there is none. -/
theorem header_lookup (lines : List HeaderLine) {name : List UInt8} (hname : cstr name ≠ [])
    (below behind : List UInt8) :
    (getHeaderField (parseHttpHeader (block (lines.map HeaderLine.text) ++ 0 :: behind) below [])
      name).map cstr = lookup lines (cstr name) := by
  have hparse := parseHttpHeader_lines (lines.map fun l => (l.text, l.strings))
    (fun l hl => by
      obtain ⟨l, -, rfl⟩ := List.mem_map.mp hl
      exact l.reads) below behind
  simp only [List.map_map, Function.comp_def, HeaderLine.strings_take] at hparse
  rw [getHeaderField_strings, hparse]
  exact find_strings hname

/-- `Host: a` -/
def hostLine : FieldLine where
  name := ofText "Host"
  blank := ofText " "
  value := ofText "a"
  name_length := by decide
  name_chars := by decide +kernel
  name_head := by decide +kernel
  name_last := by decide +kernel
  blank_space := List.forall_mem_singleton.mpr (by decide)
  value_length := by decide
  value_chars := by decide +kernel
  value_head := by decide +kernel

/-- It is found behind a blank line, under `hOST`. -/
theorem header_lookup_host :
    (getHeaderField (parseHttpHeader (ofText "\r\nHost: a\r\n" ++ 0 :: []) [] [])
      (ofText "hOST")).map cstr = some (ofText "a") :=
  (header_lookup [.malformed [] (List.forall_mem_nil _) (by decide) (.inr List.not_mem_nil),
    .field hostLine (by decide) (by decide)] (by decide) [] []).trans (by decide +kernel)

/-! ## The list of fields -/

/-- A field that has room in `http_header_field_t`. -/
structure Field where
  name : List UInt8
  value : List UInt8
  name_length : 1 ≤ name.length ∧ name.length ≤ 99
  name_chars : ∀ c ∈ name, c ≠ 0 ∧ c ≠ 13 ∧ c ≠ 58
  name_head : ∀ c ∈ name.head?, isspace c = false
  name_last : ∀ c ∈ name.getLast?, isspace c = false
  value_length : 1 ≤ value.length ∧ value.length ≤ 511
  value_chars : ∀ c ∈ value, c ≠ 0 ∧ c ≠ 13
  value_head : ∀ c ∈ value.head?, isspace c = false

/-- `name: value` -/
def Field.line (f : Field) : FieldLine where
  name := f.name
  blank := [32]
  value := f.value
  name_length := f.name_length
  name_chars := f.name_chars
  name_head := f.name_head
  name_last := f.name_last
  blank_space := List.forall_mem_singleton.mpr (by decide)
  value_length := f.value_length.1
  value_chars := f.value_chars
  value_head := f.value_head

theorem Field.line_length (f : Field) : f.line.text.length ≤ 1023 := by
  have hname := f.name_length
  have hvalue := f.value_length
  simp only [Field.line, FieldLine.text, List.length_append, List.length_cons, List.length_nil]
  omega

/-- The fields' lines, and the blank line that ends a header. -/
def serialise (fs : List Field) : List UInt8 := block (fs.map (·.line.text) ++ [[]])

/-- The list has these fields, in this order, with their whole values. -/
def Exact (fs : List Field) (fields : List HttpHeaderField) : Prop :=
  fields.map strings = fs.map fun f => (f.name, f.value)

/-- **The list is never exact.** It has the fields in their order with the
first 127 bytes of their values, and one field without name and value for the
blank line. -/
theorem header_list_never_exact (fs : List Field) (below behind : List UInt8) :
    (parseHttpHeader (serialise fs ++ 0 :: behind) below []).map strings =
        (fs.map fun f => (f.name, f.value.take 127)) ++ [([], [])] ∧
      ¬ Exact fs (parseHttpHeader (serialise fs ++ 0 :: behind) below []) := by
  have hblank : Reads [] [] [] := reads_malformed (List.forall_mem_nil _) (by decide)
    (.inr List.not_mem_nil)
  have hparse := parseHttpHeader_lines
    ((fs.map fun f => (f.line.text, f.name, f.value.take 127)) ++ [([], [], [])])
    (fun l hl => by
      rcases List.mem_append.mp hl with hl | hl
      · obtain ⟨f, -, rfl⟩ := List.mem_map.mp hl
        exact f.line.reads f.line_length
      · rw [List.mem_singleton.mp hl]
        exact hblank) below behind
  have htake : ∀ f : Field, (f.name.take 99, (f.value.take 127).take 511) =
      (f.name, f.value.take 127) := by
    intro f
    have hlen := List.length_take_le 127 f.value
    rw [List.take_of_length_le f.name_length.2, List.take_of_length_le (by omega)]
  simp only [List.map_append, List.map_map, Function.comp_def, List.map_singleton, htake,
    List.take_nil] at hparse
  have hlist : (parseHttpHeader (serialise fs ++ 0 :: behind) below []).map strings =
      (fs.map fun f => (f.name, f.value.take 127)) ++ [([], [])] := hparse
  refine ⟨hlist, fun hexact => ?_⟩
  rw [Exact, hlist] at hexact
  have hlen := congrArg List.length hexact
  simp only [List.length_append, List.length_map, List.length_singleton] at hlen
  omega

/-- `Host: a` -/
def host : Field where
  name := ofText "Host"
  value := ofText "a"
  name_length := by decide
  name_chars := by decide +kernel
  name_head := by decide +kernel
  name_last := by decide +kernel
  value_length := by decide
  value_chars := by decide +kernel
  value_head := by decide +kernel

/-- A header of one field gives a list of two. -/
theorem header_of_host_not_exact :
    ¬ Exact [host] (parseHttpHeader (serialise [host] ++ 0 :: []) [] []) := by
  rw [Exact]
  decide +kernel

end SmartPrince.Net.HeaderSoundness
