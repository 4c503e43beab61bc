import SmartPrince.Net.HttpParser

/-! # The request line of an HTTP header

The parser copies the first line to a buffer as large as the structure it
fills, and cuts it at two spaces. What it returns is where the copying
stopped, and two bytes more; it looks at neither of these two. -/
namespace SmartPrince.Net.RequestLineSoundness
open SmartPrince.Lib.CString SmartPrince.Net.HttpParser

/-! ## The line that is copied -/

theorem copyLine_eq (room : Nat) (header : List UInt8) :
    copyLine room header = ((cstr header).takeWhile (· ≠ 13)).take room := by
  induction room generalizing header with
  | zero => simp [copyLine]
  | succ room ih =>
    cases header with
    | nil => simp [copyLine, cstr]
    | cons c header =>
      rw [copyLine]
      by_cases h0 : c = 0
      · rw [if_pos (.inl h0), cstr, List.takeWhile_cons_of_neg (by simpa using h0)]
        rfl
      · rw [cstr, List.takeWhile_cons_of_pos (by simpa using h0), ← cstr]
        by_cases h13 : c = 13
        · rw [if_pos (.inr h13), List.takeWhile_cons_of_neg (by simpa using h13)]
          rfl
        · rw [if_neg (by simp [h0, h13]), List.takeWhile_cons_of_pos (by simpa using h13), ih]
          rfl

/-- The first line of a text, as far as there is room for it. -/
def requestLine (text : List UInt8) : List UInt8 := (text.takeWhile (· ≠ 13)).take (lineSize - 1)

theorem requestLine_length (text : List UInt8) : (requestLine text).length < lineSize := by
  have h := List.length_take_le (lineSize - 1) (text.takeWhile (· ≠ 13))
  have h0 : 0 < lineSize := by decide
  rw [requestLine]
  omega

/-- The scratch buffer holds the line, and has room for its NUL. -/
theorem lineBuffer_eq {l : List UInt8} (h : l.length < lineSize) :
    ∃ z, overwrite (zeros lineSize) l = l ++ 0 :: z := by
  refine ⟨zeros (lineSize - l.length - 1), ?_⟩
  have hk : lineSize - l.length = lineSize - l.length - 1 + 1 := by omega
  rw [overwrite, zeros, List.drop_replicate, hk, List.replicate_succ]
  rfl

/-! ## The four exits -/

theorem copyLine_no_nul (room : Nat) (header : List UInt8) : 0 ∉ copyLine room header := fun h => by
  rw [copyLine_eq] at h
  exact cstr_no_nul header ((List.takeWhile_sublist _).mem ((List.take_sublist _ _).mem h))

theorem copyLine_length (header : List UInt8) :
    (copyLine (lineSize - 1) header).length < lineSize := by
  rw [copyLine_eq]
  exact requestLine_length (cstr header)

section Exits
variable {header line l : List UInt8} (hl : copyLine (lineSize - 1) header = l)
include hl

theorem line_buffer : 0 ∉ l ∧ ∃ z, overwrite (zeros lineSize) l = l ++ 0 :: z :=
  ⟨hl ▸ copyLine_no_nul _ header, lineBuffer_eq (hl ▸ copyLine_length header)⟩

/-- No space in the line. -/
theorem parse_noSpace (h : 32 ∉ l) : sParseHttpRequestLine header line = (.unspecified, line) := by
  obtain ⟨h0, z, hz⟩ := line_buffer hl
  simp only [sParseHttpRequestLine, hl, hz, sFind_missing h0 h]

variable {m b : List UInt8} (hm : l = m ++ 32 :: b) (hm32 : 32 ∉ m)
include hm hm32

/-- What is found of a line with a space. -/
theorem first_space : 0 ∉ b ∧ ∃ z, overwrite (zeros lineSize) l = m ++ 32 :: (b ++ 0 :: z) ∧
    sFind (m ++ 32 :: (b ++ 0 :: z)) 32 = some (32 :: (b ++ 0 :: z)) ∧
    (m ++ 32 :: (b ++ 0 :: z)).length - (32 :: (b ++ 0 :: z)).length = m.length := by
  obtain ⟨h0, z, hz⟩ := line_buffer hl
  subst hm
  rw [List.mem_append, not_or, List.mem_cons, not_or] at h0
  refine ⟨h0.2.2, z, ?_, sFind_found (by decide) h0.1 hm32, ?_⟩
  · rw [hz, List.append_assoc, List.cons_append]
  · rw [List.length_append, Nat.add_sub_cancel]

/-- The line up to its first space is the method. -/
theorem parse_method (line : List UInt8) : 0 ∉ b ∧ ∃ z, sParseHttpRequestLine header line =
    match sFirstNotSpace (32 :: b ++ 0 :: z) with
    | none => (.null, storeAt line methodOff m)
    | some ps =>
      match sFind ps 32 with
      | none => (.null, storeAt line methodOff m)
      | some pe =>
        let line := storeAt (storeAt line methodOff m) uriOff (ps.take (ps.length - pe.length))
        let line := match sFirstNotSpace pe with
          | some ps => storeAt line protocolOff (snprintf protocolSize (cstr ps))
          | none => line
        (.offset (l.length + 2), line) := by
  obtain ⟨h0, z, hbuf, hfind, hlength⟩ := first_space hl hm hm32
  refine ⟨h0, z, ?_⟩
  simp only [sParseHttpRequestLine, hl, hbuf, hfind, hlength, List.take_left]
  rfl

/-- Only white space behind the first space. -/
theorem parse_blank (hb : ∀ x ∈ b, isspace x = true) :
    sParseHttpRequestLine header line = (.null, storeAt line methodOff m) := by
  obtain ⟨-, z, hz⟩ := parse_method hl hm hm32 line
  have hspace : ∀ x ∈ 32 :: b, isspace x = true := List.forall_mem_cons.mpr ⟨by decide, hb⟩
  rw [hz, sFirstNotSpace_missing hspace]

variable {ws u : List UInt8} {c : UInt8} (hws : ∀ x ∈ ws, isspace x = true)
  (hc : isspace c = false)
include hws hc

omit hl hm hm32 in
theorem first_not_space {rest : List UInt8} (h0 : c ≠ 0) :
    sFirstNotSpace (32 :: (ws ++ c :: rest)) = some (c :: rest) :=
  @sFirstNotSpace_found (32 :: ws) _ _ (List.forall_mem_cons.mpr ⟨by decide, hws⟩) h0 hc

/-- No second space. -/
theorem parse_oneField (hb : b = ws ++ c :: u) (hu : 32 ∉ c :: u) :
    sParseHttpRequestLine header line = (.null, storeAt line methodOff m) := by
  obtain ⟨h0, z, hz⟩ := parse_method hl hm hm32 line
  subst hb
  rw [List.mem_append, not_or] at h0
  have hc0 : c ≠ 0 := fun h => h0.2 (h ▸ List.mem_cons_self)
  have hfind : sFind (c :: u ++ 0 :: z) 32 = none := sFind_missing h0.2 hu
  rw [hz, List.cons_append, List.append_assoc, List.cons_append, first_not_space hws hc hc0]
  simp only [← List.cons_append, hfind]

/-- Two spaces: what stands between them is the URI, what stands behind the
second one and its white space the protocol. -/
theorem parse_fields (line : List UInt8) {p : List UInt8} (hb : b = ws ++ (c :: u ++ 32 :: p))
    (hu : 32 ∉ c :: u) : sParseHttpRequestLine header line = (.offset (l.length + 2),
      let line := storeAt (storeAt line methodOff m) uriOff (c :: u)
      match p.dropWhile isspace with
      | [] => line
      | x :: q => storeAt line protocolOff (snprintf protocolSize (x :: q))) := by
  obtain ⟨h0, z, hz⟩ := parse_method hl hm hm32 line
  subst hb
  simp only [List.mem_append, not_or, List.mem_cons] at h0
  obtain ⟨-, ⟨hc0, hu0⟩, -, hp0⟩ := h0
  have hcu : 0 ∉ c :: u := fun h => (List.mem_cons.mp h).elim hc0 hu0
  have hp : 0 ∉ 32 :: p := fun h => (List.mem_cons.mp h).elim (by decide) hp0
  have hfirst : sFirstNotSpace (32 :: (ws ++ (c :: u ++ 32 :: p)) ++ 0 :: z) =
      some (c :: u ++ 32 :: (p ++ 0 :: z)) := by
    simp only [List.cons_append, List.append_assoc]
    exact first_not_space hws hc (Ne.symm hc0)
  have hfind : sFind (c :: u ++ 32 :: (p ++ 0 :: z)) 32 = some (32 :: (p ++ 0 :: z)) :=
    sFind_found (by decide) hcu hu
  have huri : (c :: u ++ 32 :: (p ++ 0 :: z)).take
      ((c :: u ++ 32 :: (p ++ 0 :: z)).length - (32 :: (p ++ 0 :: z)).length) = c :: u := by
    rw [List.length_append, Nat.add_sub_cancel, List.take_left]
  have hrest : sFirstNotSpace (32 :: (p ++ 0 :: z)) =
      match p.dropWhile isspace with
      | [] => none
      | x :: q => some (x :: (q ++ 0 :: z)) := by
    have hfound := @sFirstNotSpace_text (32 :: p) z hp
    rw [List.dropWhile_cons_of_pos (by decide)] at hfound
    exact hfound
  rw [hz, hfirst]
  simp only [hfind, huri, hrest]
  cases hq : p.dropWhile isspace with
  | nil => rfl
  | cons x q =>
    have hxq : 0 ∉ x :: q := fun h => hp0 ((List.dropWhile_sublist _).mem (hq ▸ h))
    have hcstr : cstr (x :: (q ++ 0 :: z)) = x :: q := cstr_nul hxq
    simp only [hcstr]

end Exits

/-! ## Where the parser says the header goes on -/

/-- Behind the first space of the line, and the white space from there on,
there is another space. -/
def TwoSpaces (l : List UInt8) : Prop := 32 ∈ (l.dropWhile (· ≠ 32)).dropWhile isspace

theorem takeWhile_ne {a b : List UInt8} (h : 32 ∉ a) :
    (a ++ 32 :: b).takeWhile (· ≠ 32) = a := by
  rw [List.takeWhile_append_of_pos fun x hx => by simpa using fun h' : x = 32 => h (h' ▸ hx)]
  simp

theorem dropWhile_ne {a b : List UInt8} (h : 32 ∉ a) :
    (a ++ 32 :: b).dropWhile (· ≠ 32) = 32 :: b := by
  rw [List.dropWhile_append_of_pos fun x hx => by simpa using fun h' : x = 32 => h (h' ▸ hx)]
  simp

theorem twoSpaces_append {m b : List UInt8} (hm : 32 ∉ m) :
    TwoSpaces (m ++ 32 :: b) ↔ 32 ∈ b.dropWhile isspace := by
  rw [TwoSpaces, dropWhile_ne hm, List.dropWhile_cons_of_pos (by decide)]

theorem not_twoSpaces {l : List UInt8} (h : 32 ∉ l) : ¬ TwoSpaces l := fun h2 =>
  h ((List.dropWhile_sublist _).mem ((List.dropWhile_sublist _).mem h2))

/-- A pointer is returned exactly for a line with two spaces. -/
theorem parse_position (header line : List UInt8) :
    let l := copyLine (lineSize - 1) header
    (TwoSpaces l ∧ (sParseHttpRequestLine header line).1 = .offset (l.length + 2)) ∨
      (¬ TwoSpaces l ∧ ∀ n, (sParseHttpRequestLine header line).1 ≠ .offset n) := by
  intro l
  have hl : copyLine (lineSize - 1) header = l := rfl
  by_cases h32 : 32 ∈ l
  · obtain ⟨m, b, hm, hm32⟩ := List.eq_append_cons_of_mem h32
    rw [show TwoSpaces l ↔ 32 ∈ b.dropWhile isspace from hm ▸ twoSpaces_append hm32]
    have hb := List.takeWhile_append_dropWhile (p := isspace) (l := b)
    have hws : ∀ x ∈ b.takeWhile isspace, isspace x = true := fun x hx => List.mem_takeWhile_imp hx
    cases hd : b.dropWhile isspace with
    | nil =>
      refine .inr ⟨List.not_mem_nil, fun n h => ?_⟩
      rw [parse_blank hl hm hm32 (List.dropWhile_eq_nil_iff.mp hd)] at h
      cases h
    | cons c t =>
      rw [hd] at hb
      have hc : isspace c = false := isspace_of_dropWhile hd
      by_cases ht : 32 ∈ c :: t
      · obtain ⟨u, p, hu, hu32⟩ := List.eq_append_cons_of_mem ht
        cases u with
        | nil =>
          -- the byte found is no space
          obtain ⟨rfl, -⟩ := List.cons.inj hu
          exact absurd hc (by decide)
        | cons c' u =>
          obtain ⟨rfl, -⟩ := List.cons.inj hu
          rw [hu] at hb
          exact .inl ⟨ht, by rw [parse_fields hl hm hm32 hws hc line hb.symm hu32]⟩
      · refine .inr ⟨ht, fun n h => ?_⟩
        rw [parse_oneField hl hm hm32 hws hc hb.symm ht] at h
        cases h
  · refine .inr ⟨not_twoSpaces h32, fun n h => ?_⟩
    rw [parse_noSpace hl h32] at h
    cases h

/-- The pointer is there and points into the text or at its NUL. -/
def Inside (text : List UInt8) : Position → Prop
  | .offset n => n ≤ text.length
  | _ => False

/-- **The position handed on lies in the text exactly where the line has two
spaces and two bytes follow the place where its copying stopped.** -/
theorem position_inside_iff {text : List UInt8} (h : 0 ∉ text) (behind line : List UInt8) :
    Inside text (parseHttpRequestLine (text ++ 0 :: behind) line).1 ↔
      TwoSpaces (requestLine text) ∧ (requestLine text).length + 2 ≤ text.length := by
  have hl : copyLine (lineSize - 1) (text ++ 0 :: behind) = requestLine text := by
    rw [copyLine_eq, cstr_nul h, requestLine]
  have hpos := parse_position (text ++ 0 :: behind) line
  rw [hl] at hpos
  rcases hpos with ⟨h2, hp⟩ | ⟨h2, hp⟩
  · rw [hp, Inside]
    exact (and_iff_right h2).symm
  · refine iff_of_false ?_ fun hc => h2 hc.1
    cases hr : (sParseHttpRequestLine (text ++ 0 :: behind) line).1 with
    | offset n => exact absurd hr (hp n)
    | unspecified => exact id
    | null => exact id

/-- A line of one word, and the text behind it. -/
theorem position_inside_word :
    Inside (ofText "GET / HTTP/1.1\r\n") (parseHttpRequestLine (ofText "GET / HTTP/1.1\r\n" ++ 0 :: [])
        []).1 ↔
      TwoSpaces (requestLine (ofText "GET / HTTP/1.1\r\n")) ∧
        (requestLine (ofText "GET / HTTP/1.1\r\n")).length + 2 ≤
          (ofText "GET / HTTP/1.1\r\n").length :=
  position_inside_iff (by decide) [] []

/-- A line without a space: the function returns nothing at all. -/
theorem word_not_inside :
    ¬ Inside (ofText "GET\r\n") (parseHttpRequestLine (ofText "GET\r\n" ++ 0 :: []) []).1 := by
  have hcopied : copyLine (lineSize - 1) (ofText "GET\r\n" ++ 0 :: []) = ofText "GET" := by decide
  rw [parseHttpRequestLine, parse_noSpace hcopied (by decide)]
  exact id

/-! ## A whole request line -/

/-- A request line that the structure has room for. -/
structure Request where
  method : List UInt8
  uri : List UInt8
  protocol : List UInt8
  method_length : 1 ≤ method.length ∧ method.length < methodSize
  method_chars : ∀ c ∈ method, c ≠ 0 ∧ c ≠ 13 ∧ c ≠ 32
  uri_length : 1 ≤ uri.length ∧ uri.length < uriSize
  uri_chars : ∀ c ∈ uri, c ≠ 0 ∧ c ≠ 13 ∧ c ≠ 32
  uri_head : ∀ c ∈ uri.head?, isspace c = false
  protocol_length : protocol.length < protocolSize
  protocol_chars : ∀ c ∈ protocol, c ≠ 0 ∧ c ≠ 13
  protocol_head : ∀ c ∈ protocol.head?, isspace c = false

def Request.line (r : Request) : List UInt8 := r.method ++ 32 :: (r.uri ++ 32 :: r.protocol)

theorem Request.line_length (r : Request) : r.line.length ≤ lineSize - 1 := by
  obtain ⟨_, hm⟩ := r.method_length
  obtain ⟨_, hu⟩ := r.uri_length
  have hp := r.protocol_length
  simp only [methodSize, uriSize, protocolSize] at hm hu hp
  simp only [Request.line, List.length_append, List.length_cons, lineSize, methodSize, uriSize,
    protocolSize]
  omega

theorem Request.line_chars (r : Request) : ∀ c ∈ r.line, c ≠ 0 ∧ c ≠ 13 := by
  intro c hc
  simp only [Request.line, List.mem_append, List.mem_cons] at hc
  rcases hc with hc | rfl | hc | rfl | hc
  · obtain ⟨h0, h13, _⟩ := r.method_chars c hc
    exact ⟨h0, h13⟩
  · decide
  · obtain ⟨h0, h13, _⟩ := r.uri_chars c hc
    exact ⟨h0, h13⟩
  · decide
  · exact r.protocol_chars c hc

/-- The copying stops at the carriage return. -/
theorem copyLine_request (r : Request) (rest : List UInt8) :
    copyLine (lineSize - 1) (r.line ++ 13 :: 10 :: rest) = r.line := by
  have h0 : 0 ∉ r.line := fun h => (r.line_chars 0 h).1 rfl
  have hline : ∀ c ∈ r.line, decide (c ≠ 13) = true := fun c hc => by
    simpa using (r.line_chars c hc).2
  rw [copyLine_eq, cstr_append h0, List.takeWhile_append_of_pos hline, cstr,
    List.takeWhile_cons_of_pos (by decide), List.takeWhile_cons_of_neg (by decide), List.append_nil,
    List.take_of_length_le r.line_length]

/-- An array of `size` bytes with a string in it and NULs behind the string. -/
def field (size : Nat) (text : List UInt8) : List UInt8 := text ++ zeros (size - text.length)

theorem overwrite_zeros {size : Nat} {text : List UInt8} (h : text.length ≤ size)
    (rest : List UInt8) : overwrite (zeros size ++ rest) text = field size text ++ rest := by
  rw [overwrite_append (by rwa [zeros, List.length_replicate]), overwrite, zeros,
    List.drop_replicate]
  rfl

theorem field_snprintf {size : Nat} {text : List UInt8} (h : text.length < size) :
    field size (snprintf size text) = field size text := by
  have hk : size - text.length = size - (text.length + 1) + 1 := by omega
  rw [snprintf, List.take_of_length_le (by omega), field, field, List.length_append,
    List.length_singleton, hk, List.append_assoc, zeros, zeros, List.replicate_succ]
  rfl

theorem field_length {size : Nat} {text : List UInt8} (h : text.length ≤ size) :
    (field size text).length = size := by
  rw [field, List.length_append, zeros, List.length_replicate]
  omega

theorem zeros_add (a b : Nat) : zeros (a + b) = zeros a ++ zeros b :=
  List.replicate_append_replicate.symm

theorem zeros_line (behind : List UInt8) : zeros lineSize ++ behind =
    zeros methodSize ++ (zeros uriSize ++ (zeros protocolSize ++ behind)) := by
  rw [lineSize, zeros_add, zeros_add, List.append_assoc, List.append_assoc]

/-- The method and the URI, each stored into its own array. -/
theorem stores_eq (r : Request) (behind : List UInt8) :
    storeAt (storeAt (zeros lineSize ++ behind) methodOff r.method) uriOff r.uri =
      (field methodSize r.method ++ field uriSize r.uri) ++ (zeros protocolSize ++ behind) := by
  have hm := Nat.le_of_lt r.method_length.2
  have hu := Nat.le_of_lt r.uri_length.2
  have hmethod : storeAt (zeros lineSize ++ behind) methodOff r.method =
      field methodSize r.method ++ (zeros uriSize ++ (zeros protocolSize ++ behind)) := by
    rw [zeros_line]
    exact overwrite_zeros hm _
  have huri : uriOff = (field methodSize r.method).length := (field_length hm).symm
  rw [hmethod, storeAt_append huri, overwrite_zeros hu, List.append_assoc]

/-- The protocol, stored into the array behind them. -/
theorem store_protocol {line text : List UInt8} (rest : List UInt8)
    (hline : protocolOff = line.length) (htext : text.length < protocolSize) :
    storeAt (line ++ (zeros protocolSize ++ rest)) protocolOff (snprintf protocolSize text) =
      line ++ (field protocolSize text ++ rest) := by
  have hlen : (snprintf protocolSize text).length ≤ protocolSize := by
    rw [snprintf, List.length_append, List.length_singleton, List.length_take]
    omega
  rw [storeAt_append hline, overwrite_zeros hlen, field_snprintf htext]

/-- **A request line that fits is taken apart exactly.** The three arrays hold
its parts as strings, nothing behind the structure is written, and the pointer
returned is that of the text behind the line. -/
theorem request_line_round_trip (r : Request) (rest behind : List UInt8) :
    ∃ n, parseHttpRequestLine (r.line ++ 13 :: 10 :: rest) (zeros lineSize ++ behind) =
        (.offset n, field methodSize r.method ++ (field uriSize r.uri ++
          (field protocolSize r.protocol ++ behind))) ∧
      (r.line ++ 13 :: 10 :: rest).drop n = rest := by
  have hm32 : 32 ∉ r.method := fun h => (r.method_chars 32 h).2.2 rfl
  have hu32 : 32 ∉ r.uri := fun h => (r.uri_chars 32 h).2.2 rfl
  obtain ⟨c, u, hu⟩ := List.exists_cons_of_length_pos (l := r.uri) r.uri_length.1
  have hc : isspace c = false := r.uri_head c (by rw [hu]; rfl)
  have hp : r.protocol.dropWhile isspace = r.protocol := by
    have hhead := r.protocol_head
    cases he : r.protocol with
    | nil => rfl
    | cons x q =>
      rw [List.dropWhile_cons_of_neg (by rw [hhead x (by rw [he]; rfl)]; decide)]
  have hoff : protocolOff = (field methodSize r.method ++ field uriSize r.uri).length := by
    rw [List.length_append, field_length (Nat.le_of_lt r.method_length.2),
      field_length (Nat.le_of_lt r.uri_length.2)]
    rfl
  refine ⟨r.line.length + 2, ?_, ?_⟩
  · have hparse := parse_fields (copyLine_request r rest) (m := r.method) (c := c)
      (u := u) (p := r.protocol) rfl hm32 (List.forall_mem_nil fun x => isspace x = true) hc
      (zeros lineSize ++ behind) (by rw [hu]; rfl) (hu ▸ hu32)
    rw [hp, ← hu, stores_eq] at hparse
    refine hparse.trans (congrArg (Prod.mk _) (Eq.trans ?_ (List.append_assoc _ _ _)))
    have hlen := r.protocol_length
    cases he : r.protocol with
    | nil => rfl  -- nothing is stored, and nothing needs to be
    | cons x q => exact store_protocol behind hoff (he ▸ hlen)
  · rw [← List.drop_drop, List.drop_left]
    rfl

/-- `GET / HTTP/1.1` -/
def getRoot : Request where
  method := ofText "GET"
  uri := ofText "/"
  protocol := ofText "HTTP/1.1"
  method_length := by decide
  method_chars := by decide +kernel
  uri_length := by decide
  uri_chars := by decide +kernel
  uri_head := by decide +kernel
  protocol_length := by decide
  protocol_chars := by decide +kernel
  protocol_head := by decide +kernel

/-- A host line behind it is what is handed on. -/
theorem request_line_round_trip_root :
    ∃ n, parseHttpRequestLine (getRoot.line ++ 13 :: 10 :: ofText "Host: a") (zeros lineSize ++ []) =
        (.offset n, field methodSize (ofText "GET") ++ (field uriSize (ofText "/") ++
          (field protocolSize (ofText "HTTP/1.1") ++ []))) ∧
      (getRoot.line ++ 13 :: 10 :: ofText "Host: a").drop n = ofText "Host: a" :=
  request_line_round_trip getRoot (ofText "Host: a") []

end SmartPrince.Net.RequestLineSoundness
