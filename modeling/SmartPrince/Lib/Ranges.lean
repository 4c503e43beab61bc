import Mathlib.Data.List.Basic

/-! # Tables of ranges

Entries each cover the integers from one bound to another. Where no two cover
the same integer, what a search from the front finds does not depend on the
order of the entries. -/
namespace SmartPrince.Lib.Ranges

variable {α : Type*} (lo hi : α → Int)

/-- `p >= lo && p <= hi` -/
def covers (p : Int) (a : α) : Bool := decide (lo a ≤ p) && decide (p ≤ hi a)

/-- No integer is covered by both. -/
def Apart (a b : α) : Prop := ∀ p, covers lo hi p a = true → covers lo hi p b = false

variable {lo hi}

theorem covers_iff {p : Int} {a : α} : covers lo hi p a = true ↔ lo a ≤ p ∧ p ≤ hi a := by
  simp [covers]

theorem Apart.symm {a b : α} (h : Apart lo hi a b) : Apart lo hi b a := fun p hb => by
  cases ha : covers lo hi p a with
  | false => rfl
  | true => rw [h p ha] at hb; cases hb

/-- In a table whose entries are apart the search finds the one entry there is. -/
theorem find_iff {table : List α} (h : table.Pairwise (Apart lo hi)) {p : Int} {a : α} :
    table.find? (covers lo hi p) = some a ↔ a ∈ table ∧ covers lo hi p a = true := by
  induction h with
  | nil => simp
  | @cons b table hapart _ ih =>
    rw [List.find?_cons, List.mem_cons]
    cases hb : covers lo hi p b with
    | true =>
      constructor
      · intro he
        cases he
        exact ⟨.inl rfl, hb⟩
      · rintro ⟨rfl | ha, hcover⟩
        · rfl
        · rw [hapart a ha p hb] at hcover
          cases hcover
    | false =>
      rw [ih]
      constructor
      · exact fun ⟨ha, hcover⟩ => ⟨.inr ha, hcover⟩
      · rintro ⟨rfl | ha, hcover⟩
        · rw [hb] at hcover
          cases hcover
        · exact ⟨ha, hcover⟩

/-- A range none of whose integers is covered is apart from every entry. -/
theorem apart_of_free {table : List α} {a : α}
    (hfree : ∀ p, covers lo hi p a = true → table.find? (covers lo hi p) = none) :
    ∀ b ∈ table, Apart lo hi a b := fun b hb p ha => by
  have hnone := List.find?_eq_none.mp (hfree p ha) b hb
  exact Bool.eq_false_iff.mpr hnone

end SmartPrince.Lib.Ranges
