import Mathlib.Data.List.Basic

/-! # Runs of a deterministic machine

A run is what a list of events makes of a state. A property of a run's steps
is stated at each split of the list: the events before, the event, the events
after; the state it meets is the run of those before. -/
namespace SmartPrince.Lib.Run

variable {σ ε : Type*} {step : σ → ε → σ}

def run (step : σ → ε → σ) (s : σ) (es : List ε) : σ := es.foldl step s

/-- `P` holds of every event of the run and the state that event meets. -/
def Always (step : σ → ε → σ) (P : σ → ε → Prop) (s : σ) (es : List ε) : Prop :=
  ∀ pre e post, es = pre ++ e :: post → P (run step s pre) e

/-- Two properties that agree on every step agree on every run. -/
theorem always_congr {P Q : σ → ε → Prop} (h : ∀ s e, P s e ↔ Q s e) {s : σ} {es : List ε} :
    Always step P s es ↔ Always step Q s es :=
  ⟨fun ha pre e post he => (h _ e).mp (ha pre e post he),
    fun ha pre e post he => (h _ e).mpr (ha pre e post he)⟩

theorem always_nil {P : σ → ε → Prop} {s : σ} : Always step P s [] := by
  intro pre e post he
  cases pre <;> cases he

theorem always_cons {P : σ → ε → Prop} {s : σ} {e : ε} {es : List ε} :
    Always step P s (e :: es) ↔ P s e ∧ Always step P (step s e) es := by
  constructor
  · intro h
    exact ⟨h [] e es rfl, fun pre f post he => h (e :: pre) f post (congrArg (e :: ·) he)⟩
  · rintro ⟨h0, hes⟩ pre f post he
    cases pre with
    | nil =>
      obtain ⟨rfl, -⟩ := List.cons.inj he
      exact h0
    | cons e' pre =>
      obtain ⟨rfl, hrest⟩ := List.cons.inj he
      exact hes pre f post hrest

/-- What an invariant gives at every step, where every step hands it on. -/
theorem always_of_invariant {I : σ → Prop} {P : σ → ε → Prop}
    (hstep : ∀ s e, I s → P s e ∧ I (step s e)) {s : σ} (h0 : I s) {es : List ε} :
    Always step P s es := by
  induction es generalizing s with
  | nil => exact always_nil
  | cons e es ih =>
    obtain ⟨hp, hi⟩ := hstep s e h0
    exact always_cons.mpr ⟨hp, ih hi⟩

/-- A property of one machine's steps and one of another's that agree wherever
the two are related agree on every list of events, where good steps keep them related. -/
theorem always_related {τ : Type*} {step' : τ → ε → τ} {R : σ → τ → Prop}
    {A : σ → ε → Prop} {B : τ → ε → Prop} (hiff : ∀ s t e, R s t → (A s e ↔ B t e))
    (hstep : ∀ s t e, R s t → A s e → R (step s e) (step' t e)) {s : σ} {t : τ} (h0 : R s t)
    {es : List ε} : Always step A s es ↔ Always step' B t es := by
  induction es generalizing s t with
  | nil => exact iff_of_true always_nil always_nil
  | cons e es ih =>
    rw [always_cons, always_cons]
    constructor
    · rintro ⟨ha, hes⟩
      exact ⟨(hiff s t e h0).mp ha, (ih (hstep s t e h0 ha)).mp hes⟩
    · rintro ⟨hb, hes⟩
      have ha := (hiff s t e h0).mpr hb
      exact ⟨ha, (ih (hstep s t e h0 ha)).mpr hes⟩

/-- Two properties that agree on every step from a state that the good steps
before it lead to agree on every run. -/
theorem always_iff {I : σ → Prop} {A B : σ → ε → Prop} (hiff : ∀ s e, I s → (A s e ↔ B s e))
    (hstep : ∀ s e, I s → A s e → I (step s e)) {s : σ} (h0 : I s) {es : List ε} :
    Always step A s es ↔ Always step B s es := by
  refine always_related (R := fun s t => I s ∧ s = t) ?_ ?_ ⟨h0, rfl⟩
  · rintro s _ e ⟨h, rfl⟩
    exact hiff s e h
  · rintro s _ e ⟨h, rfl⟩ ha
    exact ⟨hstep s e h ha, rfl⟩

/-- What is observed of a state stays what it was along the whole run
exactly where every step keeps it. -/
theorem kept_iff {α : Type*} {f : σ → α} {s : σ} {es : List ε} :
    (∀ pre post, es = pre ++ post → f (run step s pre) = f s) ↔
      Always step (fun s e => f (step s e) = f s) s es := by
  induction es generalizing s with
  | nil =>
    refine iff_of_true (fun pre post he => ?_) always_nil
    obtain ⟨rfl, -⟩ := List.append_eq_nil_iff.mp he.symm
    rfl
  | cons e es ih =>
    rw [always_cons, ← ih]
    constructor
    · intro h
      have h1 := h [e] es rfl
      refine ⟨h1, fun pre post he => ?_⟩
      exact (h (e :: pre) post (congrArg (e :: ·) he)).trans h1.symm
    · rintro ⟨h1, hes⟩ pre post he
      cases pre with
      | nil => rfl
      | cons e' pre =>
        obtain ⟨rfl, hrest⟩ := List.cons.inj he
        exact (hes pre post hrest).trans h1

/-! ## Runs that go on -/

/-- The state before event `n` of an unending run. -/
def stream (step : σ → ε → σ) (s : σ) (es : Nat → ε) : Nat → σ
  | 0 => s
  | n + 1 => step (stream step s es n) (es n)

/-- Where the steps that meet `A` keep an invariant and are good, and a step
that does not makes the next one bad, a run is good exactly as far as it meets `A`. -/
theorem stream_iff {I : σ → Prop} {A B : σ → ε → Prop} {s : σ} {es : Nat → ε} (h0 : I s)
    (hgood : ∀ s e, I s → A s e → I (step s e) ∧ B s e)
    (hbad : ∀ s e f, I s → ¬ A s e → ¬ B (step s e) f) :
    ((∀ n, A (stream step s es n) (es n)) ↔ ∀ n, B (stream step s es n) (es n)) ∧
      ((∀ n, A (stream step s es n) (es n)) → ∀ n, I (stream step s es n)) := by
  have hinv : (∀ n, A (stream step s es n) (es n)) → ∀ n, I (stream step s es n) := by
    intro ha n
    induction n with
    | zero => exact h0
    | succ n ih => exact (hgood _ _ ih (ha n)).1
  refine ⟨⟨fun ha n => (hgood _ _ (hinv ha n) (ha n)).2, fun hb => ?_⟩, hinv⟩
  have hboth : ∀ n, I (stream step s es n) ∧ A (stream step s es n) (es n) := by
    intro n
    induction n with
    | zero => exact ⟨h0, not_not.mp fun ha => hbad _ _ _ h0 ha (hb 1)⟩
    | succ n ih =>
      have hi := (hgood _ _ ih.1 ih.2).1
      exact ⟨hi, not_not.mp fun ha => hbad _ _ _ hi ha (hb (n + 2))⟩
  exact fun n => (hboth n).2

/-! ## Machines that may stop -/

/-- The states that a machine comes to before it stops, over events that meet `P`
in the state they come in. -/
inductive Reach (step : σ → ε → Option σ) (P : σ → ε → Prop) (s : σ) : σ → Prop
  | start : Reach step P s s
  | step {t u : σ} {e : ε} (before : Reach step P s t) (meets : P t e) (next : step t e = some u) :
      Reach step P s u

theorem reach_inv {step : σ → ε → Option σ} {P : σ → ε → Prop} {I : σ → Prop} {s t : σ}
    (h : Reach step P s t) (h0 : I s)
    (hstep : ∀ t e u, I t → P t e → step t e = some u → I u) : I t := by
  induction h with
  | start => exact h0
  | step _ meets next ih => exact hstep _ _ _ ih meets next

end SmartPrince.Lib.Run
