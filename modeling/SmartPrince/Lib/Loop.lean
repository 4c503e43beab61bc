import Mathlib.Algebra.Order.Group.Nat
import Mathlib.Tactic.Ring

/-! # Counted loops

A `for` loop of an imperative program is a number of turns of a body that
sees the turn's number. This file gives the two rules its proofs use: an
invariant rule, and the separation of a loop that walks cursors through a
state into the cursors' closed form and a loop on the state alone. -/
namespace SmartPrince.Lib.Loop

variable {σ γ μ : Type*}

/-- `n` turns of `body`; turn `k` is given `k`. -/
def loop : Nat → (Nat → σ → σ) → σ → σ
  | 0, _, s => s
  | n + 1, body, s => body n (loop n body s)

@[simp] theorem loop_zero (body : Nat → σ → σ) (s : σ) : loop 0 body s = s := rfl

theorem loop_succ (n : Nat) (body : Nat → σ → σ) (s : σ) :
    loop (n + 1) body s = body n (loop n body s) := rfl

/-- What the first turn needs and every turn hands on holds after the last. -/
theorem loop_inv (P : Nat → σ → Prop) {n : Nat} {body : Nat → σ → σ} {s : σ} (h0 : P 0 s)
    (step : ∀ k t, k < n → P k t → P (k + 1) (body k t)) : P n (loop n body s) := by
  induction n with
  | zero => exact h0
  | succ n ih =>
    exact step n _ (Nat.lt_succ_self n) (ih fun k t hk => step k t (Nat.lt_succ_of_lt hk))

/-- Two loops whose turns keep states related. -/
theorem loop_rel {τ : Type*} (R : σ → τ → Prop) {n : Nat} {f : Nat → σ → σ} {g : Nat → τ → τ}
    {s : σ} {t : τ} (h0 : R s t) (step : ∀ k s t, R s t → R (f k s) (g k t)) :
    R (loop n f s) (loop n g t) := by
  induction n with
  | zero => exact h0
  | succ n ih => exact step n _ _ ih

theorem loop_congr {n : Nat} {f g : Nat → σ → σ} (h : ∀ k t, k < n → f k t = g k t) (s : σ) :
    loop n f s = loop n g s := by
  induction n with
  | zero => rfl
  | succ n ih =>
    rw [loop_succ, loop_succ, ih fun k t hk => h k t (Nat.lt_succ_of_lt hk)]
    exact h n _ (Nat.lt_succ_self n)

theorem loop_add (m n : Nat) (body : Nat → σ → σ) (s : σ) :
    loop (m + n) body s = loop n (fun k => body (m + k)) (loop m body s) := by
  induction n with
  | zero => rfl
  | succ n ih => rw [← Nat.add_assoc, loop_succ, loop_succ, ih]

/-- **Cursors leave the loop.** When a turn takes the cursors `cur k` to
`cur (k + 1)` whatever the state is, the loop ends with the cursors in
closed form and a loop on the state that sees only the turn's number. -/
theorem loop_walk {n : Nat} {body : Nat → γ × μ → γ × μ} {c : γ} (cur : Nat → γ)
    (turn : Nat → μ → μ) (h0 : cur 0 = c)
    (h : ∀ k m, k < n → body k (cur k, m) = (cur (k + 1), turn k m)) (m : μ) :
    loop n body (c, m) = (cur n, loop n turn m) := by
  subst h0
  induction n with
  | zero => rfl
  | succ n ih =>
    rw [loop_succ, ih fun k m hk => h k m (Nat.lt_succ_of_lt hk)]
    exact h n _ (Nat.lt_succ_self n)

/-- Rows of equal length, one after the other, are one loop over all turns. -/
theorem loop_rows (rows cols : Nat) (turn : Nat → σ → σ) (s : σ) :
    loop rows (fun y => loop cols fun x => turn (y * cols + x)) s = loop (rows * cols) turn s := by
  induction rows with
  | zero => simp
  | succ n ih => rw [loop_succ, ih, Nat.succ_mul, loop_add]

/-- A loop that takes two turns at a time. -/
theorem loop_pairs (n : Nat) (turn : Nat → σ → σ) (s : σ) :
    loop n (fun j s => turn (2 * j + 1) (turn (2 * j) s)) s = loop (2 * n) turn s := by
  induction n with
  | zero => rfl
  | succ n ih => rw [loop_succ, ih, Nat.mul_succ, loop_succ, loop_succ]

/-- A nested loop whose turn depends on row and column, as one loop that
recovers them from the turn's number. -/
theorem loop_nest (rows cols : Nat) (turn : Nat → Nat → σ → σ) (s : σ) :
    loop rows (fun y => loop cols (turn y)) s =
      loop (rows * cols) (fun k => turn (k / cols) (k % cols)) s := by
  rw [← loop_rows]
  refine loop_congr (fun y t _ => loop_congr (fun x t hx => ?_) t) s
  have hc : 0 < cols := by omega
  rw [Nat.add_comm, Nat.add_mul_div_right _ _ hc, Nat.div_eq_of_lt hx, Nat.add_mul_mod_self_right,
    Nat.mod_eq_of_lt hx, Nat.zero_add]

/-! ## Lists that grow -/

/-- A loop that appends at each turn. -/
theorem loop_append {α : Type*} (n : Nat) (g : Nat → List α) (l : List α) :
    loop n (fun k l => l ++ g k) l = l ++ (List.range n).flatMap g := by
  induction n with
  | zero => simp
  | succ n ih => rw [loop_succ, ih, List.range_succ, List.flatMap_append, List.append_assoc]; simp

/-- What comes in groups of `m`, one by one. -/
theorem flatMap_groups {α : Type*} (n m : Nat) (f : Nat → α) :
    (List.range n).flatMap (fun k => (List.range m).map fun j => f (m * k + j)) =
      (List.range (m * n)).map f := by
  induction n with
  | zero => rfl
  | succ n ih =>
    rw [List.range_succ, List.flatMap_append, ih, Nat.mul_succ, List.range_add, List.map_append,
      List.map_map]
    simp [Function.comp_def]

/-- What comes in groups of one length, by the group and the place in it. -/
theorem getElem?_groups {α β : Type*} {f : α → List β} {m : Nat} (hf : ∀ a, (f a).length = m) (l : List α)
    (i : Nat) {j : Nat} (hj : j < m) : (l.flatMap f)[m * i + j]? = (l[i]?).bind fun a => (f a)[j]? := by
  induction l generalizing i with
  | nil => simp
  | cons a l ih =>
    rw [List.flatMap_cons]
    cases i with
    | zero => rw [Nat.mul_zero, Nat.zero_add, List.getElem?_append_left (hf a ▸ hj)]; rfl
    | succ i =>
      rw [Nat.mul_succ, List.getElem?_append_right (by rw [hf]; omega), hf,
        show m * i + m + j - m = m * i + j by omega, ih]
      rfl

/-- `l'` is `l` with the elements that meet `P` in front, in any order. -/
def Adds {α : Type*} (P : α → Prop) (l l' : List α) : Prop :=
  ∃ new, l' = new ++ l ∧ ∀ a, a ∈ new ↔ P a

section Adds
variable {α : Type*} {P Q : α → Prop} {l l' l'' : List α}

theorem adds_none (h : ∀ a, ¬ P a) : Adds P l l :=
  ⟨[], rfl, fun a => iff_of_false List.not_mem_nil (h a)⟩

theorem adds_one (b : α) : Adds (· = b) l (b :: l) := ⟨[b], rfl, fun _ => List.mem_singleton⟩

theorem Adds.congr (h : Adds P l l') (hpq : ∀ a, P a ↔ Q a) : Adds Q l l' := by
  obtain ⟨new, rfl, hnew⟩ := h
  exact ⟨new, rfl, fun a => (hnew a).trans (hpq a)⟩

theorem Adds.trans (h : Adds P l l') (h' : Adds Q l' l'') : Adds (fun a => P a ∨ Q a) l l'' := by
  obtain ⟨new, rfl, hnew⟩ := h
  obtain ⟨new', rfl, hnew'⟩ := h'
  refine ⟨new' ++ new, (List.append_assoc ..).symm, fun a => ?_⟩
  rw [List.mem_append, hnew, hnew', or_comm]

theorem Adds.mem_iff (h : Adds P l l') {a : α} : a ∈ l' ↔ a ∈ l ∨ P a := by
  obtain ⟨new, rfl, hnew⟩ := h
  rw [List.mem_append, hnew, or_comm]

/-- What a loop adds to a list that is part of its state is what its turns add. -/
theorem adds_loop {f : σ → List α} {I : σ → Prop} {P : Nat → α → Prop} {n : Nat}
    {turn : Nat → σ → σ} (hI : ∀ k s, I s → I (turn k s))
    (h : ∀ k s, I s → Adds (P k) (f s) (f (turn k s))) {s : σ} (hs : I s) :
    Adds (fun a => ∃ k, k < n ∧ P k a) (f s) (f (loop n turn s)) := by
  induction n with
  | zero => exact adds_none (by simp)
  | succ n ih =>
    have hn : I (loop n turn s) := loop_inv (fun _ => I) hs fun k t _ => hI k t
    refine (ih.trans (h n _ hn)).congr fun a => ?_
    constructor
    · rintro (⟨k, hk, hp⟩ | hp)
      · exact ⟨k, Nat.lt_succ_of_lt hk, hp⟩
      · exact ⟨n, Nat.lt_succ_self n, hp⟩
    · rintro ⟨k, hk, hp⟩
      rcases Nat.lt_succ_iff_lt_or_eq.mp hk with hk | rfl
      · exact .inl ⟨k, hk, hp⟩
      · exact .inr hp

/-- Where something that is not in `l` was added, all of `l` came before it. -/
theorem Adds.older (h : Adds P l l') {b : α} (hb : b ∉ l) {newer older : List α}
    (hl : l' = newer ++ b :: older) : ∃ between, older = between ++ l := by
  obtain ⟨new, rfl, -⟩ := h
  obtain ⟨mid, hnew, hrest⟩ | ⟨mid, -, hrest⟩ := List.append_eq_append_iff.mp hl
  · exact absurd (hrest ▸ List.mem_append_right mid List.mem_cons_self) hb
  · cases mid with
    | nil =>
      rw [List.nil_append] at hrest
      exact absurd (hrest ▸ List.mem_cons_self) hb
    | cons b' between =>
      obtain ⟨-, hold⟩ := List.cons.inj hrest
      exact ⟨between, hold⟩

end Adds

end SmartPrince.Lib.Loop
