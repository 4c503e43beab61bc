import Mathlib.Data.List.Forall2

/-! # Readers in a row

A reader takes a value off the front of an input, or fails. What several of
them do one after the other follows from what each does: which values they
give, and on which inputs they agree. -/
namespace SmartPrince.Lib.Readers

variable {ε σ α : Type*}

abbrev Reader (ε σ α : Type*) := σ → Except ε (α × σ)

/-- The readers one after the other, up to the first that fails. -/
def readAll : List (Reader ε σ α) → Reader ε σ (List α)
  | [], s => .ok ([], s)
  | r :: rs, s =>
    match r s with
    | .error e => .error e
    | .ok (a, s) =>
      match readAll rs s with
      | .error e => .error e
      | .ok (as, s) => .ok (a :: as, s)

/-- Every value was given by its reader. -/
theorem readAll_ok {rs : List (Reader ε σ α)} {s s' : σ} {as : List α}
    (h : readAll rs s = .ok (as, s')) :
    List.Forall₂ (fun r a => ∃ s s', r s = .ok (a, s')) rs as := by
  induction rs generalizing s as with
  | nil =>
    cases h
    exact .nil
  | cons r rs ih =>
    unfold readAll at h
    split at h
    · cases h
    · next a t hr =>
      split at h
      · cases h
      · next hrs =>
        cases h
        exact .cons ⟨s, t, hr⟩ (ih hrs)

/-! ## A value that is mapped, or checked -/

section Value
variable {β : Type*} {x : Except ε (α × σ)} {b : β} {s : σ}

theorem map_ok {f : α → β} (h : (x.map fun (a, s) => (f a, s)) = .ok (b, s)) :
    ∃ a, x = .ok (a, s) ∧ f a = b := by
  cases x with
  | error e => cases h
  | ok r =>
    cases h
    exact ⟨r.1, rfl, rfl⟩

theorem bind_ok {f : α → Except ε β} (h : (x.bind fun (a, s) => (f a).map (·, s)) = .ok (b, s)) :
    ∃ a, x = .ok (a, s) ∧ f a = .ok b := by
  cases x with
  | error e => cases h
  | ok r =>
    change (f r.1).map (·, r.2) = .ok (b, s) at h
    cases hf : f r.1 with
    | error e =>
      rw [hf] at h
      cases h
    | ok c =>
      rw [hf] at h
      cases h
      exact ⟨r.1, rfl, hf⟩

end Value

/-! ## Inputs that are read alike -/

/-- The same failure, or the same value with inputs left that are related. -/
inductive Alike (R : σ → σ → Prop) : Except ε (α × σ) → Except ε (α × σ) → Prop where
  | error (e : ε) : Alike R (.error e) (.error e)
  | ok (a : α) {s t : σ} (h : R s t) : Alike R (.ok (a, s)) (.ok (a, t))

variable {R : σ → σ → Prop}

theorem readAll_alike {rs : List (Reader ε σ α)}
    (hrs : ∀ r ∈ rs, ∀ s t, R s t → Alike R (r s) (r t)) {s t : σ} (h : R s t) :
    Alike R (readAll rs s) (readAll rs t) := by
  induction rs generalizing s t with
  | nil => exact .ok [] h
  | cons r rs ih =>
    have hr := hrs r List.mem_cons_self s t h
    unfold readAll
    generalize r s = x, r t = y at hr
    cases hr with
    | error e => exact .error e
    | @ok a s t h =>
      have has := ih (fun r hr => hrs r (List.mem_cons_of_mem _ hr)) h
      dsimp only
      generalize readAll rs s = x, readAll rs t = y at has ⊢
      cases has with
      | error e => exact .error e
      | ok as h => exact .ok (a :: as) h

/-- What a value is mapped to, or checked for, is alike too. -/
theorem Alike.bind {β : Type*} {x y : Except ε (α × σ)} (h : Alike R x y) (f : α → Except ε β) :
    Alike R (x.bind fun (a, s) => (f a).map (·, s)) (y.bind fun (a, t) => (f a).map (·, t)) := by
  cases h with
  | error e => exact .error e
  | ok a h =>
    change Alike R ((f a).map (·, _)) ((f a).map (·, _))
    cases f a with
    | error e => exact .error e
    | ok b => exact .ok b h

theorem Alike.map {β : Type*} {x y : Except ε (α × σ)} (h : Alike R x y) (f : α → β) :
    Alike R (x.map fun (a, s) => (f a, s)) (y.map fun (a, t) => (f a, t)) := by
  cases h with
  | error e => exact .error e
  | ok a h => exact .ok (f a) h

/-- What is made of the values alone is the same. -/
theorem Alike.map_eq {β : Type*} {x y : Except ε (α × σ)} (h : Alike R x y) (f : α → β) :
    x.map (fun r => f r.1) = y.map (fun r => f r.1) := by
  cases h <;> rfl

end SmartPrince.Lib.Readers
