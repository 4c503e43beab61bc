import Mathlib.Data.List.Count
import Mathlib.Logic.Function.Basic
import Mathlib.Tactic.SplitIfs
import SmartPrince.Lib.Loop

/-! # Byte memory with a record of its accesses

Objects are named by a type `ι`; a pointer is an object and an offset, which
may leave the object on either side. Every byte of every object has a value,
also outside the bounds an allocation gave it: an access out of bounds is
not an error here but an entry of the log, so what a program touches is a
fact about its run and not a hypothesis of its model. -/
namespace SmartPrince.Lib.Memory
open SmartPrince.Lib.Loop

structure Ptr (ι : Type) where
  base : ι
  off : Int
  deriving DecidableEq, Repr

variable {ι : Type}

instance : HAdd (Ptr ι) Nat (Ptr ι) := ⟨fun p n => ⟨p.base, p.off + n⟩⟩
instance : HSub (Ptr ι) Nat (Ptr ι) := ⟨fun p n => ⟨p.base, p.off - n⟩⟩

@[simp] theorem Ptr.add_base (p : Ptr ι) (n : Nat) : (p + n).base = p.base := rfl
@[simp] theorem Ptr.add_off (p : Ptr ι) (n : Nat) : (p + n).off = p.off + n := rfl
@[simp] theorem Ptr.sub_base (p : Ptr ι) (n : Nat) : (p - n).base = p.base := rfl
@[simp] theorem Ptr.sub_off (p : Ptr ι) (n : Nat) : (p - n).off = p.off - n := rfl

theorem Ptr.ext_off {p q : Ptr ι} (hb : p.base = q.base) (ho : p.off = q.off) : p = q := by
  cases p; cases q; simp_all

@[simp] theorem Ptr.add_zero (p : Ptr ι) : p + 0 = p := Ptr.ext_off rfl (by simp)

theorem Ptr.add_assoc (p : Ptr ι) (m n : Nat) : p + m + n = p + (m + n) :=
  Ptr.ext_off rfl (by simp; omega)

@[simp] theorem Ptr.sub_zero (p : Ptr ι) : p - 0 = p := Ptr.ext_off rfl (by simp)

theorem Ptr.sub_sub (p : Ptr ι) (m n : Nat) : p - m - n = p - (m + n) :=
  Ptr.ext_off rfl (by simp; omega)

theorem Ptr.add_sub (p : Ptr ι) {m n : Nat} (h : n ≤ m) : p + m - n = p + (m - n) :=
  Ptr.ext_off rfl (by simp; omega)

/-- A pointer moved by a signed number. -/
def Ptr.shift (p : Ptr ι) (z : Int) : Ptr ι := ⟨p.base, p.off + z⟩

@[simp] theorem Ptr.shift_base (p : Ptr ι) (z : Int) : (p.shift z).base = p.base := rfl
@[simp] theorem Ptr.shift_off (p : Ptr ι) (z : Int) : (p.shift z).off = p.off + z := rfl

theorem Ptr.shift_natCast (p : Ptr ι) (n : Nat) : p.shift n = p + n := rfl

theorem Ptr.shift_neg (p : Ptr ι) (n : Nat) : p.shift (-n) = p - n :=
  Ptr.ext_off rfl Int.sub_eq_add_neg.symm

@[simp] theorem Ptr.add_right_inj {p : Ptr ι} {m n : Nat} : p + m = p + n ↔ m = n := by
  constructor
  · intro h
    have := congrArg Ptr.off h
    simpa using this
  · rintro rfl; rfl

/-- The `n` bytes from `p` on. -/
def Span (p : Ptr ι) (n : Nat) (q : Ptr ι) : Prop :=
  q.base = p.base ∧ p.off ≤ q.off ∧ q.off < p.off + n

instance [DecidableEq ι] (p : Ptr ι) (n : Nat) (q : Ptr ι) : Decidable (Span p n q) :=
  inferInstanceAs (Decidable (_ ∧ _))

@[simp] theorem span_zero (p q : Ptr ι) : ¬ Span p 0 q := by
  rintro ⟨_, h1, h2⟩; omega

theorem span_add {p : Ptr ι} {n i : Nat} : Span p n (p + i) ↔ i < n := by
  simp only [Span, Ptr.add_base, Ptr.add_off, true_and]; omega

/-- A byte of a span, by its index. -/
theorem Span.eq_add {p q : Ptr ι} {n : Nat} (h : Span p n q) :
    ∃ i, i < n ∧ q = p + i := by
  obtain ⟨hb, h1, h2⟩ := h
  exact ⟨(q.off - p.off).toNat, by omega, Ptr.ext_off hb (by simp; omega)⟩

theorem span_succ {dst q : Ptr ι} {n : Nat} : Span dst (n + 1) q ↔ Span dst n q ∨ q = dst + n := by
  constructor
  · intro h
    obtain ⟨i, hi, rfl⟩ := h.eq_add
    rcases Nat.lt_succ_iff_lt_or_eq.mp hi with hi | rfl
    · exact .inl (span_add.mpr hi)
    · exact .inr rfl
  · rintro (h | rfl)
    · obtain ⟨i, hi, rfl⟩ := h.eq_add
      exact span_add.mpr (Nat.lt_succ_of_lt hi)
    · exact span_add.mpr (Nat.lt_succ_self n)

/-! ## Memory and its log -/

inductive Access (ι : Type) where
  | load (p : Ptr ι)
  | store (p : Ptr ι)
  deriving DecidableEq, Repr

def Access.ptr : Access ι → Ptr ι
  | .load p => p
  | .store p => p

@[simp] theorem Access.ptr_load (p : Ptr ι) : (Access.load p).ptr = p := rfl
@[simp] theorem Access.ptr_store (p : Ptr ι) : (Access.store p).ptr = p := rfl

/-- The bytes, and the accesses made so far, newest first. -/
structure Mem (ι : Type) where
  byte : Ptr ι → UInt8
  log : List (Access ι)

def Mem.load (m : Mem ι) (p : Ptr ι) : UInt8 × Mem ι :=
  (m.byte p, { m with log := .load p :: m.log })

def Mem.store [DecidableEq ι] (m : Mem ι) (p : Ptr ι) (v : UInt8) : Mem ι :=
  { byte := Function.update m.byte p v, log := .store p :: m.log }

/-! ## The log of a loop -/

/-- What `n` turns log when turn `k` logs `acc k`. -/
def accesses (acc : Nat → List (Access ι)) : Nat → List (Access ι)
  | 0 => []
  | n + 1 => acc n ++ accesses acc n

theorem mem_accesses {acc : Nat → List (Access ι)} {n : Nat} {a : Access ι} :
    a ∈ accesses acc n ↔ ∃ k, k < n ∧ a ∈ acc k := by
  induction n with
  | zero => simp [accesses]
  | succ n ih =>
    simp only [accesses, List.mem_append, ih]
    constructor
    · rintro (h | ⟨k, hk, h⟩)
      · exact ⟨n, Nat.lt_succ_self n, h⟩
      · exact ⟨k, Nat.lt_succ_of_lt hk, h⟩
    · rintro ⟨k, hk, h⟩
      rcases Nat.lt_succ_iff_lt_or_eq.mp hk with hk | rfl
      · exact .inr ⟨k, hk, h⟩
      · exact .inl h

/-- A loop whose turns log the same whatever the memory holds logs their sum. -/
theorem loop_log {acc : Nat → List (Access ι)} {turn : Nat → Mem ι → Mem ι} {n : Nat}
    (h : ∀ k m, k < n → (turn k m).log = acc k ++ m.log) (m : Mem ι) :
    (loop n turn m).log = accesses acc n ++ m.log := by
  induction n with
  | zero => rfl
  | succ n ih =>
    rw [loop_succ, h n _ (Nat.lt_succ_self n), ih fun k m hk => h k m (Nat.lt_succ_of_lt hk)]
    simp [accesses]

variable [DecidableEq ι]

/-- An access that only turn `k` makes. -/
theorem count_accesses {acc : Nat → List (Access ι)} {a : Access ι} {k c n : Nat}
    (h : ∀ j, j < n → (acc j).count a = if j = k then c else 0) :
    (accesses acc n).count a = if k < n then c else 0 := by
  induction n with
  | zero => rfl
  | succ n ih =>
    rw [accesses, List.count_append, h n (Nat.lt_succ_self n),
      ih fun j hj => h j (Nat.lt_succ_of_lt hj)]
    split_ifs <;> omega

@[simp] theorem Mem.store_byte (m : Mem ι) (p : Ptr ι) (v : UInt8) :
    (m.store p v).byte = Function.update m.byte p v := rfl
@[simp] theorem Mem.store_log (m : Mem ι) (p : Ptr ι) (v : UInt8) :
    (m.store p v).log = .store p :: m.log := rfl

/-- `*dst = *src` -/
def Mem.copy (m : Mem ι) (dst src : Ptr ι) : Mem ι :=
  let (b, m) := m.load src
  m.store dst b

/-- `memcpy`, byte by byte from the front. -/
def Mem.memcpy (dst src : Ptr ι) (n : Nat) (m : Mem ι) : Mem ι :=
  loop n (fun k m => m.copy (dst + k) (src + k)) m

/-- `memset`. -/
def Mem.memset (dst : Ptr ι) (v : UInt8) (n : Nat) (m : Mem ι) : Mem ι :=
  loop n (fun k m => m.store (dst + k) v) m

/-- `*p++ = v` for each `v` of a list. -/
def Mem.put (m : Mem ι) (p : Ptr ι) : List UInt8 → Mem ι
  | [] => m
  | v :: vs => (m.store p v).put (p + 1) vs

/-- Load several bytes and add them up, as an expression over them does. -/
def Mem.sum (m : Mem ι) : List (Ptr ι) → Nat × Mem ι
  | [] => (0, m)
  | p :: ps =>
    let (b, m) := m.load p
    let (s, m) := m.sum ps
    (b.toNat + s, m)

omit [DecidableEq ι] in
theorem Mem.sum_fst (m : Mem ι) (ps : List (Ptr ι)) :
    (m.sum ps).1 = (ps.map fun p => (m.byte p).toNat).sum := by
  induction ps generalizing m with
  | nil => rfl
  | cons p ps ih => exact congrArg ((m.byte p).toNat + ·) (ih (m.load p).2)

omit [DecidableEq ι] in
theorem Mem.sum_byte (m : Mem ι) (ps : List (Ptr ι)) : (m.sum ps).2.byte = m.byte := by
  induction ps generalizing m with
  | nil => rfl
  | cons p ps ih => exact ih (m.load p).2

omit [DecidableEq ι] in
theorem Mem.sum_log (m : Mem ι) (ps : List (Ptr ι)) :
    (m.sum ps).2.log = (ps.map .load).reverse ++ m.log := by
  induction ps generalizing m with
  | nil => rfl
  | cons p ps ih =>
    rw [List.map_cons, List.reverse_cons, List.append_assoc]
    exact ih (m.load p).2

/-! ## Counting stores -/

/-- Whether a byte lies in a span, as a number of stores. -/
def once (dst : Ptr ι) (n : Nat) (q : Ptr ι) : Nat := if Span dst n q then 1 else 0

theorem once_succ (dst q : Ptr ι) (n : Nat) :
    once dst (n + 1) q = once dst n q + if dst + n = q then 1 else 0 := by
  by_cases hq : dst + n = q
  · subst hq
    rw [once, once, if_pos (by rw [span_add]; omega), if_neg (by rw [span_add]; omega), if_pos rfl]
  · simp only [once, if_neg hq, span_succ, or_iff_left (Ne.symm hq), Nat.add_zero]

/-! ## Patches: memory rewritten on a span -/

/-- `f` with the `n` bytes from `dst` on replaced by `v 0, v 1, …`. -/
def patch (dst : Ptr ι) (n : Nat) (v : Nat → UInt8) (f : Ptr ι → UInt8) : Ptr ι → UInt8 := fun p =>
  if Span dst n p then v (p.off - dst.off).toNat else f p

variable {dst q : Ptr ι} {n i : Nat} {v w : Nat → UInt8} {f : Ptr ι → UInt8} {x : UInt8}

@[simp] theorem patch_zero : patch dst 0 v f = f := by
  funext p; simp [patch]

theorem patch_in (h : i < n) : patch dst n v f (dst + i) = v i := by
  rw [patch, if_pos (span_add.mpr h)]; simp

theorem patch_out (h : ¬ Span dst n q) : patch dst n v f q = f q := if_neg h

/-- Blocks of one object, by their offsets in it. -/
theorem patch_at {a : Nat} : patch (dst + a) n v f (dst + i) =
    if a ≤ i ∧ i < a + n then v (i - a) else f (dst + i) := by
  split
  · next h => rw [show dst + i = dst + a + (i - a) by rw [Ptr.add_assoc, Nat.add_sub_of_le h.1],
      patch_in (by omega)]
  · next h => exact patch_out fun hs => h (by
      obtain ⟨_, hlo, hhi⟩ := hs
      simp only [Ptr.add_off] at hlo hhi
      omega)

theorem patch_beyond {a s : Nat} (ha : a + n ≤ s) (hq : ¬ Span dst s q) :
    patch (dst + a) n v f q = f q := by
  refine patch_out fun hs => hq ?_
  obtain ⟨j, hj, rfl⟩ := hs.eq_add
  rw [Ptr.add_assoc, span_add]
  omega

theorem patch_base (h : q.base ≠ dst.base) : patch dst n v f q = f q :=
  patch_out fun hs => h hs.1

/-- A plane of another object, as a function of the index. -/
theorem patch_base_run (h : q.base ≠ dst.base) :
    (fun k : Nat => patch dst n v f (q + k)) = fun k : Nat => f (q + k) :=
  funext fun _ => patch_base h

/-- A store right after a patch makes it longer. -/
theorem update_patch : Function.update (patch dst n v f) (dst + n) (v n) =
    patch dst (n + 1) v f := by
  funext p
  by_cases hp : p = dst + n
  · subst hp
    rw [Function.update_self, patch_in (Nat.lt_succ_self n)]
  · rw [Function.update_of_ne hp]
    by_cases hs : Span dst n p
    · obtain ⟨i, hi, rfl⟩ := hs.eq_add
      rw [patch_in hi, patch_in (Nat.lt_succ_of_lt hi)]
    · rw [patch_out hs, patch_out]
      rintro hs'
      obtain ⟨i, hi, rfl⟩ := hs'.eq_add
      rcases Nat.lt_succ_iff_lt_or_eq.mp hi with hi | rfl
      · exact hs (span_add.mpr hi)
      · exact hp rfl

/-- A store inside a patch. -/
theorem update_patch_in (h : i < n) : Function.update (patch dst n v f) (dst + i) x =
    patch dst n (Function.update v i x) f := by
  funext p
  by_cases hp : p = dst + i
  · subst hp
    rw [Function.update_self, patch_in h, Function.update_self]
  · rw [Function.update_of_ne hp]
    by_cases hs : Span dst n p
    · obtain ⟨j, hj, rfl⟩ := hs.eq_add
      have hne : j ≠ i := fun he => hp (he ▸ rfl)
      rw [patch_in hj, patch_in hj, Function.update_of_ne hne]
    · rw [patch_out hs, patch_out hs]

/-- A store outside a patch passes under it. -/
theorem update_patch_out (h : ¬ Span dst n q) :
    Function.update (patch dst n v f) q x = patch dst n v (Function.update f q x) := by
  funext p
  by_cases hp : p = q
  · subst hp
    rw [Function.update_self, patch_out h, Function.update_self]
  · rw [Function.update_of_ne hp]
    by_cases hs : Span dst n p
    · rw [patch, patch, if_pos hs, if_pos hs]
    · rw [patch_out hs, patch_out hs, Function.update_of_ne hp]

/-- A patch outside a patch passes under it. -/
theorem patch_comm {dst' : Ptr ι} {n' : Nat} {v' : Nat → UInt8}
    (h : ∀ p, Span dst n p → ¬ Span dst' n' p) :
    patch dst n v (patch dst' n' v' f) = patch dst' n' v' (patch dst n v f) := by
  funext p
  by_cases hs : Span dst n p
  · obtain ⟨i, hi, rfl⟩ := hs.eq_add
    rw [patch_in hi, patch_out (h _ hs), patch_in hi]
  · by_cases hs' : Span dst' n' p
    · obtain ⟨i, hi, rfl⟩ := hs'.eq_add
      rw [patch_out hs, patch_in hi, patch_in hi]
    · rw [patch_out hs, patch_out hs', patch_out hs', patch_out hs]

theorem patch_congr (h : ∀ i, i < n → v i = w i) : patch dst n v f = patch dst n w f := by
  funext p
  by_cases hs : Span dst n p
  · obtain ⟨i, hi, rfl⟩ := hs.eq_add
    rw [patch_in hi, patch_in hi, h i hi]
  · rw [patch_out hs, patch_out hs]

/-- A patch right behind a patch. -/
theorem patch_append {a b : Nat} : patch (dst + a) b (fun i => v (a + i)) (patch dst a v f) =
    patch dst (a + b) v f := by
  funext p
  by_cases hs : Span dst (a + b) p
  · obtain ⟨i, hi, rfl⟩ := hs.eq_add
    rw [patch_in hi]
    by_cases ha : i < a
    · rw [patch_out (by simp [Span]; omega), patch_in ha]
    · rw [show dst + i = dst + a + (i - a) by rw [Ptr.add_assoc]; congr 1; omega,
        patch_in (by omega)]
      congr 1; omega
  · rw [patch_out hs, patch_out, patch_out]
    · intro hs'
      obtain ⟨i, hi, rfl⟩ := hs'.eq_add
      exact hs (span_add.mpr (by omega))
    · intro hs'
      obtain ⟨i, hi, rfl⟩ := hs'.eq_add
      exact hs (by rw [Ptr.add_assoc, span_add]; omega)

/-- **A loop that writes forward.** When turn `k` stores `v k` right behind
what the earlier turns stored and nothing else, the loop patches memory. -/
theorem loop_patch {turn : Nat → Mem ι → Mem ι} (m0 : Mem ι)
    (h : ∀ k m, k < n → m.byte = patch dst k v m0.byte →
      (turn k m).byte = Function.update m.byte (dst + k) (v k)) :
    (loop n turn m0).byte = patch dst n v m0.byte := by
  refine loop_inv (fun k (m : Mem ι) => m.byte = patch dst k v m0.byte) (by simp) ?_
  intro k m hk hm
  rw [h k m hk hm, hm, update_patch]

/-- A store right before a patch makes it longer. -/
theorem update_patch_below : Function.update (patch (dst + (i + 1)) n (fun k => v (i + 1 + k)) f)
    (dst + i) (v i) = patch (dst + i) (n + 1) (fun k => v (i + k)) f := by
  funext p
  by_cases hp : p = dst + i
  · subst hp
    have h0 : patch (dst + i) (n + 1) (fun k => v (i + k)) f (dst + i + 0) = v (i + 0) :=
      patch_in (Nat.succ_pos n)
    rw [Ptr.add_zero] at h0
    rw [Function.update_self, h0, Nat.add_zero]
  · rw [Function.update_of_ne hp]
    by_cases hs : Span (dst + (i + 1)) n p
    · obtain ⟨k, hk, rfl⟩ := hs.eq_add
      rw [patch_in hk, show dst + (i + 1) + k = dst + i + (k + 1) by
        simp only [Ptr.add_assoc]; congr 1; omega, patch_in (Nat.succ_lt_succ hk)]
      congr 1; omega
    · rw [patch_out hs, patch_out]
      intro hs'
      obtain ⟨k, hk, rfl⟩ := hs'.eq_add
      cases k with
      | zero => exact hp (Ptr.add_zero _)
      | succ k =>
        refine hs ?_
        rw [show dst + i + (k + 1) = dst + (i + 1) + k by
          simp only [Ptr.add_assoc]; congr 1; omega, span_add]
        omega

/-- **A loop that writes backward**, from the end of the patch to its start. -/
theorem loop_patch_down {turn : Nat → Mem ι → Mem ι} (m0 : Mem ι)
    (h : ∀ k m, k < n → m.byte = patch (dst + (n - k)) k (fun j => v (n - k + j)) m0.byte →
      (turn k m).byte = Function.update m.byte (dst + (n - 1 - k)) (v (n - 1 - k))) :
    (loop n turn m0).byte = patch dst n v m0.byte := by
  have hend := loop_inv (fun k (m : Mem ι) =>
    m.byte = patch (dst + (n - k)) k (fun j => v (n - k + j)) m0.byte)
    (n := n) (s := m0) (by simp) fun k m hk hm => by
      rw [h k m hk hm, hm, show n - k = n - 1 - k + 1 by omega, update_patch_below,
        show n - 1 - k = n - (k + 1) by omega]
  simpa using hend

/-! ## Block operations -/

theorem Mem.memcpy_byte {dst src : Ptr ι} (hb : src.base ≠ dst.base) (n : Nat) (m : Mem ι) :
    (m.memcpy dst src n).byte = patch dst n (fun k => m.byte (src + k)) m.byte := by
  refine loop_patch m fun k m' _ hm => ?_
  simp only [Mem.copy, Mem.load, Mem.store_byte, hm]
  rw [patch_base (by simpa using hb)]

theorem Mem.memcpy_log (dst src : Ptr ι) (n : Nat) (m : Mem ι) :
    (m.memcpy dst src n).log =
      accesses (fun k => [.store (dst + k), .load (src + k)]) n ++ m.log :=
  loop_log (fun _ _ _ => rfl) m

theorem Mem.put_byte (m : Mem ι) (p : Ptr ι) (vs : List UInt8) :
    (m.put p vs).byte = patch p vs.length (fun i => vs.getD i 0) m.byte := by
  induction vs generalizing m p with
  | nil => simp [Mem.put]
  | cons v vs ih =>
    have hone : Function.update m.byte p v = patch p 1 (fun i => (v :: vs).getD i 0) m.byte := by
      have h := @update_patch ι _ p 0 (fun i => (v :: vs).getD i 0) m.byte
      simpa using h
    have happ := @patch_append ι _ p (fun i => (v :: vs).getD i 0) m.byte 1 vs.length
    rw [Mem.put, ih, Mem.store_byte, hone, List.length_cons, Nat.add_comm vs.length, ← happ]
    simp [Nat.add_comm 1]

theorem Mem.load_mem_put {m : Mem ι} {p q : Ptr ι} {vs : List UInt8} :
    .load q ∈ (m.put p vs).log ↔ .load q ∈ m.log := by
  induction vs generalizing m p with
  | nil => rfl
  | cons v vs ih => rw [Mem.put, ih]; simp

theorem Mem.memset_byte (dst : Ptr ι) (x : UInt8) (n : Nat) (m : Mem ι) :
    (m.memset dst x n).byte = patch dst n (fun _ => x) m.byte :=
  loop_patch m fun _ _ _ _ => rfl

theorem Mem.memset_log (dst : Ptr ι) (x : UInt8) (n : Nat) (m : Mem ι) :
    (m.memset dst x n).log = accesses (fun k => [.store (dst + k)]) n ++ m.log :=
  loop_log (fun _ _ _ => rfl) m

theorem Mem.store_mem_memcpy {dst src q : Ptr ι} {n : Nat} {m : Mem ι} :
    .store q ∈ (m.memcpy dst src n).log ↔ Span dst n q ∨ .store q ∈ m.log := by
  rw [memcpy_log, List.mem_append, mem_accesses]
  refine or_congr_left ⟨?_, fun hs => ?_⟩
  · rintro ⟨k, hk, hq⟩
    simp only [List.mem_cons, Access.store.injEq, List.not_mem_nil, or_false, reduceCtorEq] at hq
    exact hq ▸ span_add.mpr hk
  · obtain ⟨k, hk, rfl⟩ := hs.eq_add
    exact ⟨k, hk, List.mem_cons_self⟩

theorem Mem.store_mem_memset {dst q : Ptr ι} {x : UInt8} {n : Nat} {m : Mem ι} :
    .store q ∈ (m.memset dst x n).log ↔ Span dst n q ∨ .store q ∈ m.log := by
  rw [memset_log, List.mem_append, mem_accesses]
  refine or_congr_left ⟨?_, fun hs => ?_⟩
  · rintro ⟨k, hk, hq⟩
    simp only [List.mem_cons, Access.store.injEq, List.not_mem_nil, or_false] at hq
    exact hq ▸ span_add.mpr hk
  · obtain ⟨k, hk, rfl⟩ := hs.eq_add
    exact ⟨k, hk, List.mem_cons_self⟩

/-! ## Objects left alone -/

/-- From `m` to `m'` no byte of object `b` changed. -/
def Leaves (b : ι) (m m' : Mem ι) : Prop := ∀ p : Ptr ι, p.base = b → m'.byte p = m.byte p

section Leaves
variable {b : ι} {p : Ptr ι}

omit [DecidableEq ι] in
theorem Leaves.refl (m : Mem ι) : Leaves b m m := fun _ _ => rfl

omit [DecidableEq ι] in
theorem Leaves.trans {m m' m'' : Mem ι} (h : Leaves b m m') (h' : Leaves b m' m'') :
    Leaves b m m'' := fun p hp => (h' p hp).trans (h p hp)

theorem store_leaves (hp : p.base ≠ b) (m : Mem ι) (v : UInt8) : Leaves b m (m.store p v) := by
  rintro q rfl
  exact Function.update_of_ne (fun he => hp (congrArg Ptr.base he).symm) _ _

theorem copy_leaves (hp : p.base ≠ b) (q : Ptr ι) (m : Mem ι) : Leaves b m (m.copy p q) :=
  store_leaves hp (m.load q).2 _

theorem put_leaves (hp : p.base ≠ b) (vs : List UInt8) (m : Mem ι) : Leaves b m (m.put p vs) := by
  rintro q rfl
  rw [Mem.put_byte, patch_base (Ne.symm hp)]

omit [DecidableEq ι] in
/-- A loop whose cursors stay out of the object. -/
theorem loop_leaves {γ : Type*} (P : γ → Prop) {body : Nat → γ × Mem ι → γ × Mem ι} {k : Nat}
    {c : γ} (hc : P c) (h : ∀ j c m, P c → P (body j (c, m)).1 ∧ Leaves b m (body j (c, m)).2)
    (m : Mem ι) : P (loop k body (c, m)).1 ∧ Leaves b m (loop k body (c, m)).2 := by
  refine loop_inv (fun _ (s : γ × Mem ι) => P s.1 ∧ Leaves b m s.2) ⟨hc, .refl m⟩ ?_
  rintro j ⟨c, m'⟩ - ⟨hc, hm⟩
  obtain ⟨hc', hm'⟩ := h j c m' hc
  exact ⟨hc', hm.trans hm'⟩

omit [DecidableEq ι] in
theorem turns_leaves {turn : Nat → Mem ι → Mem ι} (h : ∀ j m, Leaves b m (turn j m)) (k : Nat)
    (m : Mem ι) : Leaves b m (loop k turn m) :=
  loop_inv (fun _ m' => Leaves b m m') (.refl m) fun j m' _ hm => hm.trans (h j m')

theorem memcpy_leaves (hp : p.base ≠ b) (src : Ptr ι) (k : Nat) (m : Mem ι) :
    Leaves b m (m.memcpy p src k) :=
  turns_leaves (fun j m => copy_leaves (show (p + j).base ≠ b from hp) _ m) k m

theorem memset_leaves (hp : p.base ≠ b) (x : UInt8) (k : Nat) (m : Mem ι) :
    Leaves b m (m.memset p x k) :=
  turns_leaves (fun j m => store_leaves (show (p + j).base ≠ b from hp) m x) k m

end Leaves

end SmartPrince.Lib.Memory
