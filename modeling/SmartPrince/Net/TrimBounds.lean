import SmartPrince.Net.HttpParser
import Mathlib.Data.List.Basic

/-! # The walk of `s_rtrim`

The walk goes down from the end of the name as long as it sees white space, and
nothing else stops it: its test `i >= 0` holds of every index. Here the indices
that it reads and clears are noted beside the bytes that it leaves. -/
namespace SmartPrince.Net.TrimBounds
open SmartPrince.Lib.CString SmartPrince.Net.HttpParser

/-! ## Accesses -/

/-- What is done at an index, counted from `str` on as the `size_t` it is. -/
inductive Access where
  | read (i : UInt64)
  | clear (i : UInt64)
  deriving DecidableEq, Repr

def Access.index : Access → UInt64
  | .read i => i
  | .clear i => i

/-- The accesses in order, the bytes left, and whether the walk has stopped
before the end of the bytes. -/
structure Walk where
  accesses : List Access
  bytes : List UInt8
  stopped : Bool
  deriving DecidableEq, Repr

/-- The loop of `s_rtrim` from an index on; below index 0 it wraps around. -/
def walk : (i : UInt64) → (below : List UInt8) → Walk
  | _, [] => ⟨[], [], false⟩
  | i, c :: below =>
    if isspace c then
      let w := walk (i - 1) below
      ⟨.read i :: .clear i :: w.accesses, 0 :: w.bytes, w.stopped⟩
    else ⟨[.read i], c :: below, true⟩

theorem walk_bytes (i : UInt64) (below : List UInt8) : (walk i below).bytes = sRtrim below := by
  induction below generalizing i with
  | nil => rfl
  | cons c below ih =>
    unfold walk sRtrim
    split
    · exact congrArg (0 :: ·) (ih (i - 1))
    · rfl

/-- Below the start of the name the loop's own test would not stop it. -/
theorem walk_first {i : UInt64} {below : List UInt8} (h : (walk i below).stopped = true) :
    .read i ∈ (walk i below).accesses := by
  cases below with
  | nil => cases h
  | cons c below =>
    unfold walk
    split
    · exact List.mem_cons_self
    · exact List.mem_cons_self

section Stops
variable {i : UInt64} {a : List UInt8} {c : UInt8}

/-- A byte that is no white space is the last one looked at. -/
theorem walk_stops (rest : List UInt8) (hi : i.toNat = a.length) (hc : isspace c = false) :
    (walk i (a ++ c :: rest)).stopped = true ∧
      ∀ x ∈ (walk i (a ++ c :: rest)).accesses, x.index.toNat ≤ a.length := by
  induction a generalizing i with
  | nil =>
    rw [List.nil_append, walk, if_neg (by rw [hc]; decide)]
    refine ⟨rfl, fun x hx => ?_⟩
    rw [List.mem_singleton.mp hx]
    exact hi.le
  | cons b a ih =>
    rw [List.length_cons] at hi
    rw [List.cons_append, walk]
    cases hb : isspace b with
    | false =>
      refine ⟨rfl, fun x hx => ?_⟩
      rw [List.mem_singleton.mp hx]
      exact hi.le
    | true =>
      have hpred : (i - 1).toNat = a.length := by
        rw [UInt64.toNat_sub_of_le i 1 (UInt64.le_iff_toNat_le.mpr (by rw [hi]; simp)), hi]
        rfl
      obtain ⟨hstop, hin⟩ := ih hpred
      refine ⟨hstop, fun x hx => ?_⟩
      rw [if_pos rfl, List.mem_cons, List.mem_cons] at hx
      rcases hx with rfl | rfl | hx
      · exact hi.le
      · exact hi.le
      · exact (hin x hx).trans (Nat.le_succ _)

end Stops

/-! ## The call -/

/-- The call `s_rtrim(ns, ne - ns)`: its `size`, and the bytes below `ne`, nearest
first. There is none where the function returns before it. -/
def rtrimCall (line below : List UInt8) : Option (UInt64 × List UInt8) :=
  match sFirstNotSpace line with
  | none => none
  | some ns =>
    match sFind ns 58 with
    | none => none
    | some ne =>
      some (UInt64.ofNat (ns.length - ne.length),
        (line.take (line.length - ne.length)).reverse ++ below)

/-- The function goes on behind its searches if and only if it makes the call,
and what the call leaves stands in front of the NUL in the line, and below it. -/
theorem parse_rtrimCall (nameLen valueLen : Nat) (s : Scratch) :
    match rtrimCall s.line s.below with
    | none => sParseHeaderField nameLen valueLen s = (-1, s)
    | some (size, bytes) =>
      ∃ ns ne, sFirstNotSpace s.line = some ns ∧ sFind ns 58 = some ne ∧
        (sParseHeaderField nameLen valueLen s).1 = 0 ∧
        (sParseHeaderField nameLen valueLen s).2.line =
          ((walk (size - 1) bytes).bytes.take (s.line.length - ne.length)).reverse ++ 0 :: ne.tail ∧
        (sParseHeaderField nameLen valueLen s).2.below =
          (walk (size - 1) bytes).bytes.drop (s.line.length - ne.length) := by
  unfold rtrimCall sParseHeaderField
  cases hns : sFirstNotSpace s.line with
  | none => rfl
  | some ns =>
    dsimp only
    cases hne : sFind ns 58 with
    | none => rfl
    | some ne =>
      refine ⟨ns, ne, rfl, hne, rfl, ?_, ?_⟩
      · rw [walk_bytes]
      · rw [walk_bytes]

/-- The walk stops, and reads and clears inside the name alone. -/
structure Contained (size : UInt64) (bytes : List UInt8) : Prop where
  stops : (walk (size - 1) bytes).stopped = true
  inside : ∀ x ∈ (walk (size - 1) bytes).accesses, x.index.toNat < size.toNat

/-- Every call of `s_rtrim` on a line is contained. -/
def Trims (line below : List UInt8) : Prop :=
  ∀ size bytes, rtrimCall line below = some (size, bytes) → Contained size bytes

/-! ## The lines whose name is not empty -/

section Text
variable {text junk below : List UInt8}

theorem rtrimCall_found {ws name rest : List UInt8}
    (hfirst : sFirstNotSpace (ws ++ (name ++ 58 :: rest)) = some (name ++ 58 :: rest))
    (h0 : 0 ∉ name) (hcolon : 58 ∉ name) :
    rtrimCall (ws ++ (name ++ 58 :: rest)) below =
      some (UInt64.ofNat name.length, name.reverse ++ (ws.reverse ++ below)) := by
  have hstart : (ws ++ (name ++ 58 :: rest)).length - (58 :: rest).length =
      (ws ++ name).length := by
    simp only [List.length_append]
    omega
  unfold rtrimCall
  rw [hfirst]
  dsimp only
  rw [sFind_found (by decide) h0 hcolon]
  dsimp only
  rw [hstart, ← List.append_assoc, List.take_left, List.reverse_append, List.append_assoc,
    List.length_append, Nat.add_sub_cancel]

/-- A name whose first byte is no white space stops the walk. -/
theorem contained_name {name rest : List UInt8} {c : UInt8} (hc : isspace c = false)
    (hlen : (c :: name).length ≤ 1023) :
    Contained (UInt64.ofNat (c :: name).length) ((c :: name).reverse ++ rest) := by
  have hsize : (UInt64.ofNat (c :: name).length).toNat = name.length + 1 :=
    UInt64.toNat_ofNat_of_lt' (by simp only [UInt64.size]; omega)
  have hi : (UInt64.ofNat (c :: name).length - 1).toNat = name.reverse.length := by
    rw [UInt64.toNat_sub_of_le _ 1 (UInt64.le_iff_toNat_le.mpr (by rw [hsize]; simp)), hsize,
      List.length_reverse]
    rfl
  obtain ⟨hstop, hin⟩ := walk_stops rest hi hc
  rw [List.reverse_cons, List.append_assoc, List.singleton_append]
  refine ⟨hstop, fun x hx => ?_⟩
  rw [hsize, Nat.lt_succ_iff, ← List.length_reverse]
  exact hin x hx

/-- An empty name has no index to start from. -/
theorem not_contained_empty (bytes : List UInt8) : ¬ Contained 0 bytes := fun h =>
  Nat.not_lt_zero _ (h.inside _ (walk_first h.stops))

/-- Without a colon behind its white space the line has no name. -/
theorem rtrimCall_missing (junk below : List UInt8) (h0 : 0 ∉ text)
    (hcolon : 58 ∉ text.dropWhile isspace) : rtrimCall (text ++ 0 :: junk) below = none := by
  unfold rtrimCall
  rw [sFirstNotSpace_text h0]
  cases hd : text.dropWhile isspace with
  | nil => rfl
  | cons c q =>
    have h0q : 0 ∉ c :: q := fun h => h0 ((List.dropWhile_sublist _).mem (hd ▸ h))
    rw [hd] at hcolon
    dsimp only
    rw [← List.cons_append, sFind_missing h0q hcolon]

/-- There is no call, or the line goes on with a name and a colon behind its
white space and the call is for that name. -/
theorem rtrimCall_cases (junk below : List UInt8) (h0 : 0 ∉ text) :
    (rtrimCall (text ++ 0 :: junk) below = none ∧ 58 ∉ text.dropWhile isspace) ∨
      ∃ name tail bytes, text.dropWhile isspace = name ++ 58 :: tail ∧ 58 ∉ name ∧
        rtrimCall (text ++ 0 :: junk) below =
          some (UInt64.ofNat name.length, name.reverse ++ bytes) := by
  by_cases hcolon : 58 ∈ text.dropWhile isspace
  · obtain ⟨name, tail, hd, hname⟩ := List.eq_append_cons_of_mem hcolon
    have h0n : 0 ∉ name := fun h =>
      h0 ((List.dropWhile_sublist _).mem (hd ▸ List.mem_append_left _ h))
    have hline : text ++ 0 :: junk =
        text.takeWhile isspace ++ (name ++ 58 :: (tail ++ 0 :: junk)) := by
      conv_lhs => rw [← List.takeWhile_append_dropWhile (p := isspace) (l := text), hd]
      simp only [List.append_assoc, List.cons_append]
    have hfirst : sFirstNotSpace (text ++ 0 :: junk) = some (name ++ 58 :: (tail ++ 0 :: junk)) := by
      rw [sFirstNotSpace_text h0, hd]
      cases name with
      | nil => rfl
      | cons c name => simp
    refine .inr ⟨name, tail, (text.takeWhile isspace).reverse ++ below, hd, hname, ?_⟩
    rw [hline] at hfirst ⊢
    exact rtrimCall_found hfirst h0n hname
  · exact .inl ⟨rtrimCall_missing junk below h0 hcolon, hcolon⟩

/-- **The walk stays in the name exactly where what comes first in the line, behind
its white space, is no colon.** -/
theorem trims_iff (h0 : 0 ∉ text) (hlen : text.length ≤ 1023) :
    Trims (text ++ 0 :: junk) below ↔ (text.dropWhile isspace).head? ≠ some 58 := by
  rcases rtrimCall_cases junk below h0 with ⟨hcall, hno⟩ | ⟨name, tail, bytes, hd, hname, hcall⟩
  · refine iff_of_true (fun size bytes h => ?_) fun h => hno (List.mem_of_head? h)
    rw [hcall] at h
    cases h
  · cases name with
    | nil =>
      refine iff_of_false (fun h => not_contained_empty _ (h _ _ hcall)) fun h => h ?_
      rw [hd]
      rfl
    | cons c name =>
      have hc : isspace c = false := isspace_of_dropWhile hd
      have hshort : (c :: name).length ≤ 1023 := by
        have hle := List.length_dropWhile_le isspace text
        rw [hd, List.length_append] at hle
        exact (Nat.le_add_right _ _).trans (hle.trans hlen)
      refine iff_of_true (fun size bytes h => ?_) fun h => hname ?_
      · rw [hcall] at h
        cases h
        exact contained_name hc hshort
      · rw [hd] at h
        rw [← Option.some.inj h]
        exact List.mem_cons_self

/-- `Host : a` -/
theorem trims_host : Trims (ofText " Host : a" ++ 0 :: []) [] :=
  (trims_iff (by decide) (by decide)).mpr (by decide)

/-- On `:x` the walk starts below the name, at the greatest index there is, and
the space that lies there is cleared. -/
theorem colon_first_not_trims :
    ¬ Trims (ofText ":x" ++ 0 :: []) [32, 65] ∧
      (walk (0 - 1) [32, 65]).accesses =
        [.read 0xFFFFFFFFFFFFFFFF, .clear 0xFFFFFFFFFFFFFFFF, .read 0xFFFFFFFFFFFFFFFE] := by
  refine ⟨fun h => ?_, by decide⟩
  have hcall : rtrimCall (ofText ":x" ++ 0 :: []) [32, 65] = some (0, [32, 65]) := by decide
  exact absurd ((h 0 [32, 65] hcall).inside (.read 0xFFFFFFFFFFFFFFFF) (by decide)) (by decide)

end Text

end SmartPrince.Net.TrimBounds
