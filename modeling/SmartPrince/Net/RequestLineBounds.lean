import SmartPrince.Net.RequestLineSoundness

/-! # The copies into the request line's fields

The parser copies what stands before the first space and what stands between
it and the next one, however long they are. Here the copies are noted beside
the bytes they store. -/
namespace SmartPrince.Net.RequestLineBounds
open SmartPrince.Lib.CString SmartPrince.Net.HttpParser SmartPrince.Net.RequestLineSoundness

/-! ## Fields and copies -/

/-- The arrays of `http_request_line_t`. -/
inductive Field where
  | method
  | uri
  | protocol
  deriving DecidableEq, Repr

def Field.off : Field → Nat
  | .method => methodOff
  | .uri => uriOff
  | .protocol => protocolOff

def Field.size : Field → Nat
  | .method => methodSize
  | .uri => uriSize
  | .protocol => protocolSize

/-- A copy into a field, and the bytes it stores from the field's start on. -/
structure Copy where
  field : Field
  bytes : List UInt8

def stored (line : List UInt8) (cs : List Copy) : List UInt8 :=
  cs.foldl (fun line c => storeAt line c.field.off c.bytes) line

/-- The copies that `s_parse_http_request_line` makes, in order. -/
def parseCopies (header : List UInt8) : List Copy :=
  let copied := copyLine (lineSize - 1) header
  let lineBuffer := overwrite (zeros lineSize) copied
  match sFind lineBuffer 32 with
  | none => []
  | some pe =>
    ⟨.method, lineBuffer.take (lineBuffer.length - pe.length)⟩ ::
      match sFirstNotSpace pe with
      | none => []
      | some ps =>
        match sFind ps 32 with
        | none => []
        | some pe =>
          ⟨.uri, ps.take (ps.length - pe.length)⟩ ::
            match sFirstNotSpace pe with
            | some ps => [⟨.protocol, snprintf protocolSize (cstr ps)⟩]
            | none => []

/-- The structure holds what the copies store, and nothing else is stored. -/
theorem parse_stored (header line : List UInt8) :
    (sParseHttpRequestLine header line).2 = stored line (parseCopies header) := by
  unfold sParseHttpRequestLine parseCopies
  dsimp only
  cases sFind (overwrite (zeros lineSize) (copyLine (lineSize - 1) header)) 32 with
  | none => rfl
  | some pe =>
    dsimp only
    cases sFirstNotSpace pe with
    | none => rfl
    | some ps =>
      dsimp only
      cases sFind ps 32 with
      | none => rfl
      | some pe =>
        dsimp only
        cases sFirstNotSpace pe with
        | none => rfl
        | some ps => rfl

/-- Every copy stays in its field, and every field of a structure that was
zeroed ends up with a NUL of its own. -/
structure Contained (header behind : List UInt8) : Prop where
  copies : ∀ c ∈ parseCopies header, c.bytes.length ≤ c.field.size
  terminated : ∀ f : Field, ∃ i, i < f.size ∧
    (sParseHttpRequestLine header (zeros lineSize ++ behind)).2[f.off + i]? = some 0

/-! ## The fields of a line -/

def methodOf (l : List UInt8) : List UInt8 := l.takeWhile (· ≠ 32)

/-- What stands between the first space, with the white space behind it, and the next one. -/
def uriOf (l : List UInt8) : List UInt8 :=
  ((l.dropWhile (· ≠ 32)).dropWhile isspace).takeWhile (· ≠ 32)

/-- Where a method is copied it is shorter than its array, and so is a URI. -/
def Fits (l : List UInt8) : Prop :=
  32 ∈ l → (methodOf l).length < methodSize ∧ (TwoSpaces l → (uriOf l).length < uriSize)

/-- What is found behind the first space of a line. -/
theorem behind_space {m b : List UInt8} (hm : 32 ∉ m) :
    methodOf (m ++ 32 :: b) = m ∧ uriOf (m ++ 32 :: b) = (b.dropWhile isspace).takeWhile (· ≠ 32) := by
  unfold methodOf uriOf
  rw [takeWhile_ne hm, dropWhile_ne hm, List.dropWhile_cons_of_pos (by decide)]
  exact ⟨rfl, rfl⟩

section Copies
variable {header l : List UInt8} (hl : copyLine (lineSize - 1) header = l)
include hl

theorem parseCopies_noSpace (h : 32 ∉ l) : parseCopies header = [] := by
  obtain ⟨h0, z, hz⟩ := line_buffer hl
  simp only [parseCopies, hl, hz, sFind_missing h0 h]

variable {m b : List UInt8} (hm : l = m ++ 32 :: b) (hm32 : 32 ∉ m)
include hm hm32

theorem parseCopies_method : 0 ∉ b ∧ ∃ z, parseCopies header =
    ⟨.method, m⟩ ::
      match sFirstNotSpace (32 :: b ++ 0 :: z) with
      | none => []
      | some ps =>
        match sFind ps 32 with
        | none => []
        | some pe =>
          ⟨.uri, ps.take (ps.length - pe.length)⟩ ::
            match sFirstNotSpace pe with
            | some ps => [⟨.protocol, snprintf protocolSize (cstr ps)⟩]
            | none => [] := by
  obtain ⟨h0, z, hbuf, hfind, hlength⟩ := first_space hl hm hm32
  refine ⟨h0, z, ?_⟩
  simp only [parseCopies, hl, hbuf, hfind, hlength, List.take_left]
  rfl

omit hl hm hm32 in
/-- The bytes up to the next space are those that are copied. -/
theorem sFind_space {t : List UInt8} (h0 : 0 ∉ t) (ht : 32 ∈ t) (z : List UInt8) :
    ∃ pe, sFind (t ++ 0 :: z) 32 = some pe ∧
      (t ++ 0 :: z).take ((t ++ 0 :: z).length - pe.length) = t.takeWhile (· ≠ 32) := by
  obtain ⟨u, p, rfl, hu⟩ := List.eq_append_cons_of_mem ht
  rw [List.mem_append, not_or] at h0
  refine ⟨32 :: (p ++ 0 :: z), ?_, ?_⟩
  · rw [List.append_assoc, List.cons_append]
    exact sFind_found (by decide) h0.1 hu
  · rw [takeWhile_ne hu, List.append_assoc, List.cons_append, List.length_append,
      Nat.add_sub_cancel, List.take_left]

/-- Behind the method: no field more, or the URI and at most the protocol. -/
theorem parseCopies_fields :
    (¬ TwoSpaces l ∧ parseCopies header = [⟨.method, m⟩]) ∨
      (TwoSpaces l ∧ ∃ rest, parseCopies header = ⟨.method, m⟩ :: ⟨.uri, uriOf l⟩ :: rest ∧
        (rest = [] ∨ ∃ text, rest = [⟨.protocol, snprintf protocolSize text⟩])) := by
  obtain ⟨h0, z, hz⟩ := parseCopies_method hl hm hm32
  have htwo : TwoSpaces l ↔ 32 ∈ b.dropWhile isspace := hm ▸ twoSpaces_append hm32
  have huri : uriOf l = (b.dropWhile isspace).takeWhile (· ≠ 32) := hm ▸ (behind_space hm32).2
  have h0b : 0 ∉ 32 :: b := fun h => (List.mem_cons.mp h).elim (by decide) h0
  have hfirst := @sFirstNotSpace_text (32 :: b) z h0b
  rw [List.dropWhile_cons_of_pos (by decide)] at hfirst
  rw [htwo, huri, hz, hfirst]
  cases hd : b.dropWhile isspace with
  | nil => exact .inl ⟨List.not_mem_nil, rfl⟩
  | cons c t =>
    have h0t : 0 ∉ c :: t := fun h => h0 ((List.dropWhile_sublist _).mem (hd ▸ h))
    by_cases ht : 32 ∈ c :: t
    · refine .inr ⟨ht, ?_⟩
      obtain ⟨pe, hfind, htake⟩ := sFind_space h0t ht z
      rw [List.cons_append] at hfind htake
      dsimp only
      rw [hfind]
      dsimp only
      rw [htake]
      refine ⟨_, rfl, ?_⟩
      cases sFirstNotSpace pe with
      | none => exact .inl rfl
      | some ps => exact .inr ⟨_, rfl⟩
    · refine .inl ⟨ht, ?_⟩
      have hfind : sFind (c :: (t ++ 0 :: z)) 32 = none := sFind_missing h0t ht
      dsimp only
      rw [hfind]

end Copies

/-! ## The bytes of a field -/

theorem Field.off_le (f : Field) : f.off ≤ lineSize := by
  cases f <;> decide

/-- The fields lie apart. -/
theorem Field.apart {f g : Field} (h : f ≠ g) : f.off + f.size ≤ g.off ∨ g.off + g.size ≤ f.off := by
  cases f <;> cases g <;> first | exact absurd rfl h | decide

theorem le_stored {buf : List UInt8} (h : lineSize ≤ buf.length) (cs : List Copy) :
    lineSize ≤ (stored buf cs).length := by
  induction cs generalizing buf with
  | nil => exact h
  | cons c cs ih => exact ih (h.trans (length_le_storeAt buf c.field.off c.bytes))

/-- Copies into other fields, which stay in them. -/
def Elsewhere (f : Field) (cs : List Copy) : Prop :=
  ∀ c ∈ cs, c.field ≠ f ∧ c.bytes.length ≤ c.field.size

theorem Elsewhere.nil {f : Field} : Elsewhere f [] := fun _ hc => nomatch hc

theorem Elsewhere.cons {f : Field} {c : Copy} {cs : List Copy} (hne : c.field ≠ f)
    (hlen : c.bytes.length ≤ c.field.size) (h : Elsewhere f cs) : Elsewhere f (c :: cs) :=
  List.forall_mem_cons.mpr ⟨⟨hne, hlen⟩, h⟩

/-- A byte of a field is stored by the copies into it alone, where all stay in theirs. -/
theorem stored_apart {f : Field} {i : Nat} (hi : i < f.size) {cs : List Copy}
    (hcs : Elsewhere f cs) {buf : List UInt8}
    (hbuf : lineSize ≤ buf.length) : (stored buf cs)[f.off + i]? = buf[f.off + i]? := by
  induction cs generalizing buf with
  | nil => rfl
  | cons c cs ih =>
    obtain ⟨hne, hlen⟩ := hcs c List.mem_cons_self
    have hapart := Field.apart hne
    have hnext := ih (fun c' hc' => hcs c' (List.mem_cons_of_mem c hc'))
      (hbuf.trans (length_le_storeAt buf c.field.off c.bytes))
    refine hnext.trans ?_
    rw [getElem?_storeAt (c.field.off_le.trans hbuf), if_neg (by omega)]

/-- The one copy into a field leaves its bytes there, and what was there behind them. -/
theorem stored_field {f : Field} {bytes : List UInt8} {i : Nat} (hi : i < f.size)
    {older newer : List Copy} (holder : Elsewhere f older) (hnewer : Elsewhere f newer)
    {buf : List UInt8} (hbuf : lineSize ≤ buf.length) :
    (stored buf (older ++ ⟨f, bytes⟩ :: newer))[f.off + i]? =
      if i < bytes.length then bytes[i]? else buf[f.off + i]? := by
  have hsplit : stored buf (older ++ ⟨f, bytes⟩ :: newer) =
      stored (storeAt (stored buf older) f.off bytes) newer := List.foldl_append ..
  have holder' := le_stored hbuf older
  rw [hsplit, stored_apart hi hnewer (holder'.trans (length_le_storeAt _ _ _)),
    getElem?_storeAt (f.off_le.trans holder'), Nat.add_sub_cancel_left, stored_apart hi holder hbuf]
  by_cases hin : i < bytes.length
  · rw [if_pos hin, if_pos (by omega)]
  · rw [if_neg hin, if_neg (by omega)]

/-- The structure as it is handed over, zeroed. -/
theorem zeroed_field {f : Field} {i : Nat} (hi : i < f.size) (behind : List UInt8) :
    (zeros lineSize ++ behind)[f.off + i]? = some 0 := by
  have hlt : f.off + i < lineSize := by
    cases f <;> simp only [Field.off, Field.size, lineSize, methodOff, uriOff, protocolOff, methodSize,
      uriSize, protocolSize] at hi ⊢ <;> omega
  rw [List.getElem?_append_left (by rwa [zeros, List.length_replicate]), zeros,
    List.getElem?_replicate, if_pos hlt]

/-- The field has a NUL of its own. -/
def Terminated (buf : List UInt8) (f : Field) : Prop :=
  ∃ i, i < f.size ∧ buf[f.off + i]? = some 0

section Terminated
variable {behind : List UInt8} {f : Field}

theorem zeroed_length (behind : List UInt8) : lineSize ≤ (zeros lineSize ++ behind).length := by
  rw [List.length_append, zeros, List.length_replicate]
  exact Nat.le_add_right _ _

/-- A field that nothing is copied to. -/
theorem terminated_untouched {cs : List Copy} (h : Elsewhere f cs) :
    Terminated (stored (zeros lineSize ++ behind) cs) f := by
  have h0 : 0 < f.size := by cases f <;> decide
  refine ⟨0, h0, ?_⟩
  rw [stored_apart h0 h (zeroed_length behind)]
  exact zeroed_field h0 behind

variable (older newer : List Copy) (holder : Elsewhere f older) (hnewer : Elsewhere f newer)
include holder hnewer

/-- A copy without a NUL leaves one exactly where it is shorter than the field. -/
theorem terminated_iff {bytes : List UInt8} (h0 : 0 ∉ bytes) :
    Terminated (stored (zeros lineSize ++ behind) (older ++ ⟨f, bytes⟩ :: newer)) f ↔
      bytes.length < f.size := by
  constructor
  · rintro ⟨i, hi, hbyte⟩
    rw [stored_field hi holder hnewer (zeroed_length behind)] at hbyte
    by_contra hlong
    rw [if_pos (by omega)] at hbyte
    exact h0 (List.mem_of_getElem? hbyte)
  · intro hlt
    refine ⟨bytes.length, hlt, ?_⟩
    rw [stored_field hlt holder hnewer (zeroed_length behind), if_neg (Nat.lt_irrefl _)]
    exact zeroed_field hlt behind

theorem terminated_snprintf (text : List UInt8) (hf : 0 < f.size) :
    Terminated (stored (zeros lineSize ++ behind) (older ++ ⟨f, snprintf f.size text⟩ :: newer))
      f := by
  have hlen : (text.take (f.size - 1)).length < f.size := by
    have := List.length_take_le (f.size - 1) text
    omega
  refine ⟨(text.take (f.size - 1)).length, hlen, ?_⟩
  have hin : (text.take (f.size - 1)).length < (snprintf f.size text).length := by
    rw [snprintf, List.length_append]
    exact Nat.lt_succ_self _
  rw [stored_field hlen holder hnewer (zeroed_length behind), if_pos hin, snprintf,
    List.getElem?_append_right (Nat.le_refl _), Nat.sub_self]
  rfl

end Terminated

theorem snprintf_length (size : Nat) (text : List UInt8) (h : 0 < size) :
    (snprintf size text).length ≤ size := by
  have := List.length_take_le (size - 1) text
  rw [snprintf, List.length_append, List.length_singleton]
  omega

/-- All copies in their fields, and a NUL in each. -/
def Sound (behind : List UInt8) (cs : List Copy) : Prop :=
  (∀ c ∈ cs, c.bytes.length ≤ c.field.size) ∧
    ∀ f, Terminated (stored (zeros lineSize ++ behind) cs) f

theorem contained_iff (header behind : List UInt8) :
    Contained header behind ↔ Sound behind (parseCopies header) := by
  unfold Sound
  rw [← parse_stored]
  exact ⟨fun h => ⟨h.copies, h.terminated⟩, fun h => ⟨h.1, h.2⟩⟩

section Shapes
variable {behind m u : List UInt8} {rest : List Copy}

theorem sound_nil : Sound behind [] :=
  ⟨(fun _ hc => nomatch hc), fun _ => terminated_untouched .nil⟩

theorem sound_method (h0 : 0 ∉ m) : Sound behind [⟨.method, m⟩] ↔ m.length < methodSize := by
  have hterm : Terminated (stored (zeros lineSize ++ behind) [⟨.method, m⟩]) .method ↔
      m.length < methodSize := terminated_iff [] [] .nil .nil h0
  constructor
  · intro h
    exact hterm.mp (h.2 .method)
  · intro hlt
    have hlen : m.length ≤ methodSize := Nat.le_of_lt hlt
    refine ⟨List.forall_mem_cons.mpr ⟨hlen, fun _ hc => nomatch hc⟩, fun f => ?_⟩
    by_cases hf : f = .method
    · rw [hf]
      exact hterm.mpr hlt
    · exact terminated_untouched (.cons (Ne.symm hf) hlen .nil)

/-- The copies behind those of the method and the URI. -/
def Trailing (rest : List Copy) : Prop :=
  rest = [] ∨ ∃ text, rest = [⟨.protocol, snprintf protocolSize text⟩]

theorem Trailing.elsewhere (h : Trailing rest) {f : Field} (hf : .protocol ≠ f) :
    Elsewhere f rest := by
  obtain rfl | ⟨text, rfl⟩ := h
  · exact .nil
  · exact .cons hf (snprintf_length _ _ (by decide)) .nil

section Fields
variable (hr : Trailing rest) (hm : m.length ≤ methodSize) (hu : u.length ≤ uriSize)
include hr

include hu in
theorem method_terminated_iff (h0m : 0 ∉ m) :
    Terminated (stored (zeros lineSize ++ behind) (⟨.method, m⟩ :: ⟨.uri, u⟩ :: rest)) .method ↔
      m.length < methodSize := by
  have hnewer : Elsewhere .method (⟨.uri, u⟩ :: rest) := .cons nofun hu (hr.elsewhere nofun)
  exact terminated_iff (f := .method) [] _ .nil hnewer h0m

include hm in
theorem uri_terminated_iff (h0u : 0 ∉ u) :
    Terminated (stored (zeros lineSize ++ behind) (⟨.method, m⟩ :: ⟨.uri, u⟩ :: rest)) .uri ↔
      u.length < uriSize := by
  have holder : Elsewhere .uri [⟨.method, m⟩] := .cons nofun hm .nil
  exact terminated_iff (f := .uri) [⟨.method, m⟩] rest holder (hr.elsewhere nofun) h0u

include hm hu in
theorem protocol_terminated :
    Terminated (stored (zeros lineSize ++ behind) (⟨.method, m⟩ :: ⟨.uri, u⟩ :: rest))
      .protocol := by
  have hfields : Elsewhere .protocol [⟨.method, m⟩, ⟨.uri, u⟩] := .cons nofun hm (.cons nofun hu .nil)
  obtain rfl | ⟨text, rfl⟩ := hr
  · exact terminated_untouched hfields
  · exact terminated_snprintf (f := .protocol) _ [] hfields .nil text (by decide)

theorem sound_fields (h0m : 0 ∉ m) (h0u : 0 ∉ u) :
    Sound behind (⟨.method, m⟩ :: ⟨.uri, u⟩ :: rest) ↔
      m.length < methodSize ∧ u.length < uriSize := by
  constructor
  · intro h
    have hm : m.length ≤ methodSize := h.1 ⟨.method, m⟩ List.mem_cons_self
    have hu : u.length ≤ uriSize := h.1 ⟨.uri, u⟩ (List.mem_cons_of_mem _ List.mem_cons_self)
    exact ⟨(method_terminated_iff hr hu h0m).mp (h.2 .method),
      (uri_terminated_iff hr hm h0u).mp (h.2 .uri)⟩
  · rintro ⟨hm, hu⟩
    have hm' := Nat.le_of_lt hm
    have hu' := Nat.le_of_lt hu
    have hrest : ∀ c ∈ rest, c.bytes.length ≤ c.field.size := fun c hc =>
      (hr.elsewhere (f := .method) nofun c hc).2
    refine ⟨List.forall_mem_cons.mpr ⟨hm', List.forall_mem_cons.mpr ⟨hu', hrest⟩⟩, fun f => ?_⟩
    cases f with
    | method => exact (method_terminated_iff hr hu' h0m).mpr hm
    | uri => exact (uri_terminated_iff hr hm' h0u).mpr hu
    | protocol => exact protocol_terminated hr hm' hu'

end Fields

end Shapes

/-- **The copies stay in their fields, and the fields are strings, exactly
where the line's method is shorter than 100 bytes and its URI, where it is
followed by a space, than 4096.** -/
theorem parse_contained_iff (header behind : List UInt8) :
    Contained header behind ↔ Fits (requestLine (cstr header)) := by
  have hl : copyLine (lineSize - 1) header = requestLine (cstr header) := copyLine_eq _ header
  generalize requestLine (cstr header) = l at hl ⊢
  change Contained header behind ↔ Fits l
  rw [contained_iff]
  by_cases h32 : 32 ∈ l
  · obtain ⟨m, b, hm, hm32⟩ := List.eq_append_cons_of_mem h32
    have h0 := (line_buffer hl).1
    have hmethod : methodOf l = m := hm ▸ (behind_space hm32).1
    have h0m : 0 ∉ m := fun h => h0 (hm ▸ List.mem_append_left _ h)
    have h0u : 0 ∉ uriOf l := fun h => h0 ((List.dropWhile_sublist _).mem
      ((List.dropWhile_sublist _).mem ((List.takeWhile_sublist _).mem h)))
    unfold Fits
    rw [hmethod, imp_iff_right h32]
    obtain ⟨htwo, hcopies⟩ | ⟨htwo, rest, hcopies, hrest⟩ := parseCopies_fields hl hm hm32
    · rw [hcopies, sound_method h0m]
      exact ⟨fun h => ⟨h, fun h2 => absurd h2 htwo⟩, fun h => h.1⟩
    · rw [hcopies, sound_fields hrest h0m h0u, imp_iff_right htwo]
  · rw [parseCopies_noSpace hl h32]
    exact iff_of_true sound_nil fun h => absurd h h32

theorem method_copied {header l m b : List UInt8} (hl : copyLine (lineSize - 1) header = l)
    (hm : l = m ++ 32 :: b) (hm32 : 32 ∉ m) : ⟨.method, m⟩ ∈ parseCopies header := by
  obtain ⟨-, h⟩ | ⟨-, rest, h, -⟩ := parseCopies_fields hl hm hm32
  · rw [h]
    exact List.mem_cons_self
  · rw [h]
    exact List.mem_cons_self

/-- A first word of 101 bytes does not fit the method's array. -/
theorem long_word_not_contained :
    ¬ Contained (List.replicate 101 65 ++ ofText " / HTTP/1.1\r\n" ++ [0]) [] := by
  intro h
  have hl : copyLine (lineSize - 1) (List.replicate 101 65 ++ ofText " / HTTP/1.1\r\n" ++ [0]) =
      List.replicate 101 65 ++ ofText " / HTTP/1.1" := by decide +kernel
  have hcopied := method_copied hl (m := List.replicate 101 65) rfl (by decide)
  have hlen := h.copies _ hcopied
  rw [List.length_replicate] at hlen
  exact absurd hlen (by decide)

end SmartPrince.Net.RequestLineBounds
