import Mathlib.Data.List.GetD
import Mathlib.Data.List.Infix
import Mathlib.Data.List.TakeWhile

/-! # NUL-terminated strings in a buffer

A buffer is the list of bytes from its start on; the string in it ends before
the first NUL. Nothing says that there is one: a string that was never
terminated goes on into whatever the buffer held before. -/
namespace SmartPrince.Lib.CString

def cstr (buf : List UInt8) : List UInt8 := buf.takeWhile (· ≠ 0)

def strlen (buf : List UInt8) : Nat := (cstr buf).length

/-- Whether `strstr` finds `needle`, which has no NUL of its own. -/
def strstr (haystack needle : List UInt8) : Bool := decide (needle <:+: cstr haystack)

/-- Bytes written over the start of a buffer. -/
def overwrite (buf bytes : List UInt8) : List UInt8 := bytes ++ buf.drop bytes.length

/-- Bytes written into a buffer from an offset on. -/
def storeAt (buf : List UInt8) (off : Nat) (bytes : List UInt8) : List UInt8 :=
  buf.take off ++ overwrite (buf.drop off) bytes

/-- What `snprintf(buf, size, "%s", text)` stores, for a `size` that is not 0. -/
def snprintf (size : Nat) (text : List UInt8) : List UInt8 := text.take (size - 1) ++ [0]

/-- The first byte of the string that `p` holds of, as the buffer from it on;
nothing where the NUL comes first. -/
def scan (p : UInt8 → Bool) : List UInt8 → Option (List UInt8)
  | [] => none
  | c :: buf => if c = 0 then none else if p c then some (c :: buf) else scan p buf

/-- Bytes written from an offset on, wherever it is. Only what falls among the
bytes of the buffer that are looked at is kept. -/
def put (buf : List UInt8) (off : Int) (bytes : List UInt8) : List UInt8 :=
  buf.mapIdx fun i old => if off ≤ i then bytes.getD (i - off).toNat old else old

/-- The bytes of an object in a buffer. -/
def region (buf : List UInt8) (off size : Nat) : List UInt8 := (buf.drop off).take size

def ofText (s : String) : List UInt8 := s.toList.map fun c => UInt8.ofNat c.toNat

@[simp] theorem strstr_iff {haystack needle : List UInt8} :
    strstr haystack needle = true ↔ needle <:+: cstr haystack := decide_eq_true_iff

theorem cstr_append_of_mem {a b : List UInt8} (h : 0 ∈ a) : cstr (a ++ b) = cstr a := by
  induction a with
  | nil => exact absurd h List.not_mem_nil
  | cons x a ih =>
    by_cases hx : x = 0
    · simp [cstr, hx]
    · have ha : 0 ∈ a := (List.mem_cons.mp h).resolve_left (Ne.symm hx)
      have he := ih ha
      simp only [cstr, List.cons_append] at he ⊢
      rw [List.takeWhile_cons_of_pos (by simpa using hx),
        List.takeWhile_cons_of_pos (by simpa using hx), he]

/-- Without a NUL the string runs on behind the bytes. -/
theorem cstr_append {a b : List UInt8} (h : 0 ∉ a) : cstr (a ++ b) = a ++ cstr b := by
  induction a with
  | nil => rfl
  | cons x a ih =>
    have hx : x ≠ 0 := fun h0 => h (h0 ▸ List.mem_cons_self)
    have he := ih fun ha => h (List.mem_cons_of_mem _ ha)
    simp only [cstr, List.cons_append] at he ⊢
    rw [List.takeWhile_cons_of_pos (by simpa using hx), he]

theorem cstr_nul {a rest : List UInt8} (h : 0 ∉ a) : cstr (a ++ 0 :: rest) = a := by
  rw [cstr_append h]
  simp [cstr]

theorem cstr_eq_self {a : List UInt8} (h : 0 ∉ a) : cstr a = a := by
  simpa [cstr] using cstr_append (b := []) h

theorem cstr_no_nul (buf : List UInt8) : 0 ∉ cstr buf := fun h => by
  simpa using List.mem_takeWhile_imp h

/-! ## Searches and stores -/

section Scan
variable {p : UInt8 → Bool} {a rest : List UInt8}

theorem scan_found {x : UInt8} (ha : ∀ c ∈ a, c ≠ 0 ∧ p c = false) (hx : x ≠ 0) (hp : p x = true) :
    scan p (a ++ x :: rest) = some (x :: rest) := by
  induction a with
  | nil => rw [List.nil_append, scan, if_neg hx, if_pos hp]
  | cons c a ih =>
    obtain ⟨h0, hc⟩ := ha c List.mem_cons_self
    rw [List.cons_append, scan, if_neg h0, if_neg (by rw [hc]; decide),
      ih fun c hm => ha c (List.mem_cons_of_mem _ hm)]

theorem scan_missing (ha : ∀ c ∈ a, c ≠ 0 ∧ p c = false) : scan p (a ++ 0 :: rest) = none := by
  induction a with
  | nil => rw [List.nil_append, scan, if_pos rfl]
  | cons c a ih =>
    obtain ⟨h0, hc⟩ := ha c List.mem_cons_self
    rw [List.cons_append, scan, if_neg h0, if_neg (by rw [hc]; decide),
      ih fun c hm => ha c (List.mem_cons_of_mem _ hm)]

end Scan

theorem overwrite_append {a b bytes : List UInt8} (h : bytes.length ≤ a.length) :
    overwrite (a ++ b) bytes = overwrite a bytes ++ b := by
  rw [overwrite, overwrite, List.drop_append_of_le_length h, List.append_assoc]

theorem storeAt_append {a b bytes : List UInt8} {off : Nat} (h : off = a.length) :
    storeAt (a ++ b) off bytes = a ++ overwrite b bytes := by
  rw [storeAt, h, List.take_left, List.drop_left]

theorem getElem?_storeAt {buf bytes : List UInt8} {off : Nat} (h : off ≤ buf.length) (i : Nat) :
    (storeAt buf off bytes)[i]? =
      if off ≤ i ∧ i < off + bytes.length then bytes[i - off]? else buf[i]? := by
  have hlen : (buf.take off).length = off := List.length_take_of_le h
  unfold storeAt overwrite
  rw [List.getElem?_append, hlen, List.getElem?_append, List.drop_drop, List.getElem?_drop]
  by_cases hlt : i < off
  · rw [if_pos hlt, if_neg (by omega), List.getElem?_take_of_lt hlt]
  · rw [if_neg hlt]
    by_cases hin : i - off < bytes.length
    · rw [if_pos hin, if_pos (by omega)]
    · rw [if_neg hin, if_neg (by omega)]
      congr 1
      omega

theorem length_le_storeAt (buf : List UInt8) (off : Nat) (bytes : List UInt8) :
    buf.length ≤ (storeAt buf off bytes).length := by
  unfold storeAt overwrite
  rw [List.length_append, List.length_append, List.length_take, List.length_drop, List.length_drop]
  omega

/-- A string stored into a buffer is read back as far as it fitted. -/
theorem cstr_snprintf (buf : List UInt8) (size : Nat) {text : List UInt8} (h : 0 ∉ text) :
    cstr (overwrite buf (snprintf size text)) = text.take (size - 1) := by
  have h' : 0 ∉ text.take (size - 1) := fun hm => h ((List.take_sublist _ _).mem hm)
  rw [overwrite, snprintf, List.append_assoc]
  exact cstr_nul h'

/-! ## Bytes put at an offset, and the objects beside them -/

@[simp] theorem length_put (buf bytes : List UInt8) (off : Int) :
    (put buf off bytes).length = buf.length := List.length_mapIdx

/-- Outside the bytes written nothing changes. -/
theorem getElem?_put_apart {buf bytes : List UInt8} {off : Int} {i : Nat}
    (h : (i : Int) < off ∨ off + bytes.length ≤ i) : (put buf off bytes)[i]? = buf[i]? := by
  rw [put, List.getElem?_mapIdx]
  cases hold : buf[i]? with
  | none => rfl
  | some old =>
    rw [Option.map_some]
    split
    · rw [List.getD_eq_default _ _ (by omega)]
    · rfl

theorem getElem?_put_inside {buf bytes : List UInt8} {off i : Nat} (h : off + i < buf.length)
    (hi : i < bytes.length) : (put buf off bytes)[off + i]? = bytes[i]? := by
  have hindex : ((off + i : Nat) - (off : Int)).toNat = i := by omega
  rw [put, List.getElem?_mapIdx, List.getElem?_eq_getElem h, Option.map_some, if_pos (by omega),
    hindex, List.getD_eq_getElem _ _ hi, List.getElem?_eq_getElem hi]

/-- Bytes written behind others, as far as there is room for them. -/
theorem put_append {a b bytes : List UInt8} (h : bytes.length ≤ b.length) :
    put (a ++ b) a.length bytes = a ++ (bytes ++ b.drop bytes.length) := by
  refine List.ext_getElem? fun i => ?_
  by_cases hlo : i < a.length
  · rw [getElem?_put_apart (.inl (by omega)), List.getElem?_append_left hlo,
      List.getElem?_append_left hlo]
  · obtain ⟨k, rfl⟩ := Nat.le.dest (Nat.le_of_not_lt hlo)
    rw [List.getElem?_append_right (Nat.le_add_right _ _), Nat.add_sub_cancel_left]
    by_cases hk : k < bytes.length
    · rw [getElem?_put_inside (by rw [List.length_append]; omega) hk, List.getElem?_append_left hk]
    · rw [getElem?_put_apart (.inr (by omega)), List.getElem?_append_right (Nat.le_add_right _ _),
        Nat.add_sub_cancel_left, List.getElem?_append_right (Nat.le_of_not_lt hk),
        List.getElem?_drop]
      congr 1
      omega

/-- An array and the bytes behind it. -/
theorem le_length_array {n : Nat} (array : Vector UInt8 n) (behind : List UInt8) :
    n ≤ (array.toList ++ behind).length := by
  rw [List.length_append, Vector.length_toList]
  exact Nat.le_add_right _ _

theorem getElem?_region {buf : List UInt8} {off size i : Nat} :
    (region buf off size)[i]? = if i < size then buf[off + i]? else none := by
  rw [region, List.getElem?_take, List.getElem?_drop]

theorem length_region {buf : List UInt8} {off size : Nat} (h : off + size ≤ buf.length) :
    (region buf off size).length = size := by
  rw [region, List.length_take, List.length_drop]
  omega

/-- Bytes written beside an object leave it. -/
theorem region_put_apart {buf bytes : List UInt8} {off size place : Nat}
    (h : off + size ≤ place ∨ place + bytes.length ≤ off) :
    region (put buf place bytes) off size = region buf off size := by
  refine List.ext_getElem? fun i => ?_
  rw [getElem?_region, getElem?_region]
  by_cases hi : i < size
  · rw [if_pos hi, if_pos hi]
    exact getElem?_put_apart (by omega)
  · rw [if_neg hi, if_neg hi]

/-- The same bytes written keep objects the same. -/
theorem region_put_congr {buf buf' : List UInt8} {off size : Nat}
    (h : region buf off size = region buf' off size) (place : Int) (bytes : List UInt8) :
    region (put buf place bytes) off size = region (put buf' place bytes) off size := by
  refine List.ext_getElem? fun i => ?_
  have hold : (region buf off size)[i]? = (region buf' off size)[i]? := by rw [h]
  rw [getElem?_region, getElem?_region] at hold ⊢
  by_cases hi : i < size
  · rw [if_pos hi, if_pos hi] at hold ⊢
    rw [put, put, List.getElem?_mapIdx, List.getElem?_mapIdx, hold]
  · rw [if_neg hi, if_neg hi]

/-- What an object holds behind bytes written over its start. -/
theorem region_put_start {buf bytes : List UInt8} {off size : Nat} (h : off + size ≤ buf.length) :
    region (put buf off bytes) off size =
      bytes.take size ++ (region buf off size).drop bytes.length := by
  refine List.ext_getElem? fun i => ?_
  rw [getElem?_region]
  by_cases hi : i < size
  · rw [if_pos hi]
    by_cases hb : i < bytes.length
    · rw [getElem?_put_inside (by omega) hb,
        List.getElem?_append_left (by rw [List.length_take]; omega), List.getElem?_take_of_lt hi]
    · rw [getElem?_put_apart (.inr (by omega)), List.take_of_length_le (by omega),
        List.getElem?_append_right (Nat.le_of_not_lt hb), List.getElem?_drop, getElem?_region,
        Nat.add_sub_cancel' (Nat.le_of_not_lt hb), if_pos hi]
  · rw [if_neg hi, List.getElem?_eq_none]
    rw [List.length_append, List.length_take, List.length_drop, length_region h]
    omega

/-! ## Searches in a buffer that is not terminated -/

/-- The text lies neither in what follows some bytes nor across the border. -/
def Apart (needle own rest : List UInt8) : Prop :=
  ¬ needle <:+: rest ∧ ∀ a b, needle = a ++ b → a <:+ own → ¬ b <+: rest

/-- **What follows the bytes matters only if it completes the text.** -/
theorem strstr_own_iff {needle own rest : List UInt8} :
    (strstr (own ++ rest) needle = true ↔ needle <:+: cstr own) ↔
      0 ∈ own ∨ needle <:+: own ∨ Apart needle own (cstr rest) := by
  by_cases h0 : 0 ∈ own
  · simp [cstr_append_of_mem h0, h0]
  · rw [strstr_iff, cstr_append h0, cstr_eq_self h0, List.infix_append_iff]
    constructor
    · intro h
      by_cases hown : needle <:+: own
      · exact .inr (.inl hown)
      · have hno := mt h.mp hown
        rw [not_or, not_or] at hno
        exact .inr (.inr ⟨hno.2.1, fun a b he ha hb => hno.2.2 ⟨a, b, he, ha, hb⟩⟩)
    · rintro (h | h | ⟨h1, h2⟩)
      · exact absurd h h0
      · exact iff_of_true (.inl h) h
      · refine ⟨fun h => ?_, .inl⟩
        rcases h with h | h | ⟨a, b, he, ha, hb⟩
        · exact h
        · exact absurd h h1
        · exact absurd hb (h2 a b he ha)

end SmartPrince.Lib.CString
