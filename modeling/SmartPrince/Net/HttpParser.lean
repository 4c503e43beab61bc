import SmartPrince.Lib.CString

/-! # The HTTP parser, `http_parser.c`

The repository has it twice, for `sp_server` and for the simple servers. A
pointer into a text is here the list of the bytes from it on, the NUL and what
lies behind it included; a pointer into a structure is an offset. -/
namespace SmartPrince.Net.HttpParser
open SmartPrince.Lib.CString

/-! ## Characters and searches -/

/-- `isspace` of the C locale; a byte above 127 is a negative `char` and none. -/
def isspace (c : UInt8) : Bool := c == 32 || (decide (9 ≤ c) && decide (c ≤ 13))

/-- `tolower` of the C locale. -/
def tolower (c : UInt8) : UInt8 := if 65 ≤ c ∧ c ≤ 90 then c + 32 else c

/-- Whether `strcasecmp` returns 0. -/
def strcaseEq (a b : List UInt8) : Bool := (cstr a).map tolower == (cstr b).map tolower

def sFirstNotSpace (str : List UInt8) : Option (List UInt8) := scan (fun c => !isspace c) str

def sFind (str : List UInt8) (m : UInt8) : Option (List UInt8) := scan (· == m) str

theorem sFind_found {a rest : List UInt8} {m : UInt8} (hm : m ≠ 0) (h0 : 0 ∉ a) (ha : m ∉ a) :
    sFind (a ++ m :: rest) m = some (m :: rest) :=
  scan_found (fun _ hc => ⟨fun h => h0 (h ▸ hc), beq_false_of_ne fun h => ha (h ▸ hc)⟩) hm
    (beq_self_eq_true m)

theorem sFind_missing {a rest : List UInt8} {m : UInt8} (h0 : 0 ∉ a) (ha : m ∉ a) :
    sFind (a ++ 0 :: rest) m = none :=
  scan_missing fun _ hc => ⟨fun h => h0 (h ▸ hc), beq_false_of_ne fun h => ha (h ▸ hc)⟩

theorem isspace_zero : isspace 0 = false := by decide

theorem sFirstNotSpace_found {ws rest : List UInt8} {c : UInt8} (hws : ∀ x ∈ ws, isspace x = true)
    (h0 : c ≠ 0) (hc : isspace c = false) :
    sFirstNotSpace (ws ++ c :: rest) = some (c :: rest) := by
  refine scan_found (fun x hx => ⟨fun h => ?_, by rw [hws x hx]; rfl⟩) h0 (by rw [hc]; rfl)
  have hspace := hws x hx
  rw [h, isspace_zero] at hspace
  cases hspace

theorem sFirstNotSpace_missing {ws rest : List UInt8} (hws : ∀ x ∈ ws, isspace x = true) :
    sFirstNotSpace (ws ++ 0 :: rest) = none := by
  refine scan_missing fun x hx => ⟨fun h => ?_, by rw [hws x hx]; rfl⟩
  have hspace := hws x hx
  rw [h, isspace_zero] at hspace
  cases hspace

theorem isspace_of_dropWhile {t q : List UInt8} {c : UInt8} (h : t.dropWhile isspace = c :: q) :
    isspace c = false := by
  have hhead := List.head?_dropWhile_not isspace t
  rw [h] at hhead
  exact hhead

/-- The first byte of a text that is no white space, and the text from it on. -/
theorem sFirstNotSpace_text {t rest : List UInt8} (h0 : 0 ∉ t) :
    sFirstNotSpace (t ++ 0 :: rest) =
      match t.dropWhile isspace with
      | [] => none
      | c :: t => some (c :: (t ++ 0 :: rest)) := by
  cases hd : t.dropWhile isspace with
  | nil => exact sFirstNotSpace_missing (List.dropWhile_eq_nil_iff.mp hd)
  | cons c q =>
    have ht : t = t.takeWhile isspace ++ c :: q := by rw [← hd, List.takeWhile_append_dropWhile]
    have hc : isspace c = false := isspace_of_dropWhile hd
    have hc0 : c ≠ 0 := fun h => h0 (by rw [ht, h]; exact List.mem_append_right _ List.mem_cons_self)
    conv_lhs => rw [ht, List.append_assoc, List.cons_append]
    exact sFirstNotSpace_found (fun x hx => List.mem_takeWhile_imp hx) hc0 hc

/-! ## The request line -/

/-- The arrays of `http_request_line_t` lie one behind the other. -/
def methodSize : Nat := 100
def uriSize : Nat := 4096
def protocolSize : Nat := 512

def methodOff : Nat := 0
def uriOff : Nat := methodSize
def protocolOff : Nat := methodSize + uriSize

/-- `sizeof(http_request_line_t)` -/
def lineSize : Nat := methodSize + uriSize + protocolSize

/-- What `s_parse_http_request_line` returns: a pointer, as its distance from
`header`, `NULL`, or nothing at all where it says `return;`. -/
inductive Position where
  | unspecified
  | null
  | offset (n : Nat)
  deriving DecidableEq, Repr

def zeros (n : Nat) : List UInt8 := List.replicate n 0

/-- The first loop: the bytes copied to `lp` while there is `room`, up to a
carriage return or the end of the text. -/
def copyLine : (room : Nat) → (header : List UInt8) → List UInt8
  | 0, _ => []
  | _, [] => []
  | room + 1, c :: header => if c = 0 ∨ c = 13 then [] else c :: copyLine room header

/-- `line` are the bytes from the structure on, with what lies behind it. -/
def sParseHttpRequestLine (header line : List UInt8) : Position × List UInt8 :=
  let copied := copyLine (lineSize - 1) header
  let lineBuffer := overwrite (zeros lineSize) copied
  match sFind lineBuffer 32 with
  | none => (.unspecified, line)
  | some pe =>
    let line := storeAt line methodOff (lineBuffer.take (lineBuffer.length - pe.length))
    match sFirstNotSpace pe with
    | none => (.null, line)
    | some ps =>
      match sFind ps 32 with
      | none => (.null, line)
      | some pe =>
        let line := storeAt line uriOff (ps.take (ps.length - pe.length))
        let line := match sFirstNotSpace pe with
          | some ps => storeAt line protocolOff (snprintf protocolSize (cstr ps))
          | none => line
        (.offset (copied.length + 2), line)

abbrev parseHttpRequestLine := sParseHttpRequestLine

/-! ## The header fields -/

/-- The arrays of `http_header_field_t`; a list of fields is a list. -/
structure HttpHeaderField where
  name : List UInt8
  value : List UInt8
  deriving DecidableEq, Repr

def sAppendHeaderField (fields : List HttpHeaderField) (name value : List UInt8) :
    List HttpHeaderField :=
  fields ++ [{
    name := overwrite (zeros 100) (snprintf 100 (cstr name))
    value := overwrite (zeros 512) (snprintf 512 (cstr value)) }]

/-- The value of the first field with this name. -/
def sGetHeaderField (fields : List HttpHeaderField) (name : List UInt8) : Option (List UInt8) :=
  (fields.find? fun header => strcaseEq header.name name).map HttpHeaderField.value

abbrev getHeaderField := sGetHeaderField

/-- `below` are the bytes below `str + size`, nearest first. `i >= 0` holds of
every `size_t`, so what stops the walk is a byte that is no white space, be it
in `str` or below it; one lies behind the end of the list at the latest. -/
def sRtrim : (below : List UInt8) → List UInt8
  | [] => []
  | c :: below => if isspace c then 0 :: sRtrim below else c :: below

/-- The arrays of `s_parse_header_fields`, and the bytes below `line` on the
stack, nearest first. -/
structure Scratch where
  line : List UInt8
  below : List UInt8
  name : List UInt8
  value : List UInt8

def sParseHeaderField (nameLen valueLen : Nat) (s : Scratch) : Int × Scratch :=
  match sFirstNotSpace s.line with
  | none => (-1, s)
  | some ns =>
    match sFind ns 58 with
    | none => (-1, s)
    | some ne =>
      -- `*ne = '\0'`, and the white space before it
      let start := s.line.length - ne.length
      let trimmed := sRtrim ((s.line.take start).reverse ++ s.below)
      let line := (trimmed.take start).reverse ++ 0 :: ne.tail
      let name := cstr (line.drop (s.line.length - ns.length))
      let value := match sFirstNotSpace ne.tail with
        | some value => cstr value
        | none => ofText "(null)"  -- what glibc prints for `NULL`
      (0, {
        line
        below := trimmed.drop start
        name := overwrite s.name (snprintf nameLen name)
        value := overwrite s.value (snprintf valueLen value) })

/-- The pointer behind the line, `NULL` where no line ends, and the line in `buf`. -/
def sReadHeaderLine (str buf : List UInt8) (size : Nat) : Option (List UInt8) × List UInt8 :=
  match sFind str 13 with
  | none => (none, overwrite buf (snprintf size (cstr str)))
  | some e =>
    let len := str.length - e.length
    (some (e.drop 2), overwrite buf (snprintf (if len + 1 > size then size else len + 1) (cstr str)))

/-- The loop of `s_parse_header_fields`, whose handler appends to the list: what
`s_parse_header_field` returns is not looked at. -/
def headerLines : (turns : Nat) → (lp : List UInt8) → Scratch → List HttpHeaderField →
    List HttpHeaderField
  | 0, _, _, fields => fields
  | turns + 1, lp, s, fields =>
    let (next, line) := sReadHeaderLine lp s.line 1024
    match next with
    | none => fields
    | some lp =>
      let (_, s) := sParseHeaderField 100 128 { s with line, name := zeros 100, value := zeros 128 }
      headerLines turns lp s (sAppendHeaderField fields s.name s.value)

/-- Every turn takes a byte off the text. -/
def sParseHeaderFields (str below : List UInt8) (fields : List HttpHeaderField) :
    List HttpHeaderField :=
  headerLines (str.length + 1) str ⟨zeros 1024, below, [], []⟩ fields

abbrev parseHttpHeader := sParseHeaderFields

end SmartPrince.Net.HttpParser
