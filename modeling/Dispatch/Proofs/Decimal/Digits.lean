import Dispatch.Decimal.Reading
/-!
# Runs of digits

What digits stand for, and where a run of digits ends.
-/

namespace Dispatch.Decimal

/-- The value of digits after others with the value `n`. -/
def valueFrom (n : Nat) (digits : List Char) : Nat :=
  digits.foldl (fun n c => 10 * n + (c.toNat - '0'.toNat)) n

theorem le_valueFrom (n : Nat) (digits : List Char) : n ≤ valueFrom n digits := by
  induction digits generalizing n with
  | nil => exact Nat.le_refl n
  | cons c rest ih =>
      have hle : n ≤ 10 * n + (c.toNat - '0'.toNat) := by omega
      exact Nat.le_trans hle (ih _)

theorem takeNatural_eq_ok_iff {bound n m : Nat} {digits : List Char} (hn : n < bound) :
    takeNatural bound n digits = .ok m ↔
      (∀ d ∈ digits, d.isDigit = true) ∧ valueFrom n digits = m ∧ m < bound := by
  induction digits generalizing n with
  | nil =>
      simp only [takeNatural, Except.ok.injEq, valueFrom, List.foldl_nil, List.not_mem_nil,
        false_implies, implies_true, true_and]
      exact ⟨fun h => ⟨h, h ▸ hn⟩, And.left⟩
  | cons c rest ih =>
      rw [List.forall_mem_cons]
      cases hdigit : c.isDigit with
      | false => simp [takeNatural, hdigit]
      | true =>
          by_cases hlt : 10 * n + (c.toNat - '0'.toNat) < bound
          · simp only [takeNatural, hdigit, Bool.not_true, Bool.false_eq_true, if_false,
              if_pos hlt, true_and]
            exact ih hlt
          · -- the value only grows, so it stays out of range
            have hle := le_valueFrom (10 * n + (c.toNat - '0'.toNat)) rest
            simp only [takeNatural, hdigit, Bool.not_true, Bool.false_eq_true, if_false,
              if_neg hlt, true_and, reduceCtorEq, false_iff, not_and]
            rintro - hvalue hm
            rw [← hvalue] at hm
            exact hlt (Nat.lt_of_le_of_lt hle hm)

/-- Whether a text does not go on with a digit. -/
def NoDigit (rest : List Char) : Prop := ∀ c ∈ rest.head?, c.isDigit = false

variable {rest : List Char}

theorem span_digits {digits : List Char} (hdigits : ∀ c ∈ digits, c.isDigit = true)
    (h : NoDigit rest) : (digits ++ rest).takeWhile Char.isDigit = digits ∧
      (digits ++ rest).dropWhile Char.isDigit = rest := by
  induction digits with
  | nil =>
      cases rest with
      | nil => exact ⟨rfl, rfl⟩
      | cons c rest => simp [h c rfl]
  | cons c digits ih =>
      obtain ⟨hc, hdigits⟩ := List.forall_mem_cons.1 hdigits
      obtain ⟨htake, hdrop⟩ := ih hdigits
      simp [hc, htake, hdrop]

/-- The digits at the front of a text are the same whatever follows that does not go on with them. -/
theorem span_append (text : List Char) (h : NoDigit rest) :
    (text ++ rest).takeWhile Char.isDigit = text.takeWhile Char.isDigit ∧
      (text ++ rest).dropWhile Char.isDigit = text.dropWhile Char.isDigit ++ rest := by
  induction text with
  | nil => exact span_digits (by simp) h
  | cons c text ih =>
      obtain ⟨htake, hdrop⟩ := ih
      cases hc : c.isDigit <;> simp [hc, htake, hdrop]

end Dispatch.Decimal
