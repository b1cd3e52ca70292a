import CollectionLoops.Value
import Mathlib

/-!
Strict equality. Numbers compare as IEEE has it: the two zeros are equal, and NaN is not equal to
itself. Main statement: strict equality is symmetric and transitive, and NaN is the one value that is
not equal to itself.
-/
namespace CollectionLoops

namespace Number

variable {a b c : Float}

theorem beq_symm (h : (a == b) = true) : (b == a) = true := by
  rw [Float.beq_iff_ne_nan_and_eq] at h ⊢
  obtain ⟨ha, hb, rfl | ⟨rfl, rfl⟩ | ⟨rfl, rfl⟩⟩ := h
  · exact ⟨hb, ha, .inl rfl⟩
  · exact ⟨hb, ha, .inr (.inr ⟨rfl, rfl⟩)⟩
  · exact ⟨hb, ha, .inr (.inl ⟨rfl, rfl⟩)⟩

/-- From one zero by way of the other, one comes to either. -/
theorem beq_trans (h : (a == b) = true) (h' : (b == c) = true) : (a == c) = true := by
  rw [Float.beq_iff_ne_nan_and_eq] at h h' ⊢
  obtain ⟨ha, hb, hab⟩ := h
  obtain ⟨-, hc, hbc⟩ := h'
  refine ⟨ha, hc, ?_⟩
  rcases hab with rfl | ⟨rfl, rfl⟩ | ⟨rfl, rfl⟩
  · exact hbc
  · rcases hbc with rfl | ⟨-, rfl⟩ | ⟨-, rfl⟩
    · exact .inr (.inl ⟨rfl, rfl⟩)
    · exact .inr (.inl ⟨rfl, rfl⟩)
    · exact .inl rfl
  · rcases hbc with rfl | ⟨-, rfl⟩ | ⟨-, rfl⟩
    · exact .inr (.inr ⟨rfl, rfl⟩)
    · exact .inl rfl
    · exact .inr (.inr ⟨rfl, rfl⟩)

theorem beq_self_iff : (a == a) = true ↔ a.isNaN = false := by
  rw [Float.beq_self_iff, Float.isNaN_eq_decide_eq_nan, decide_eq_false_iff_not]

end Number

namespace Value

variable {u v w : Value}

theorem strictEquals_iff : v.strictEquals w = true ↔
    (∃ a b, v = .number a ∧ w = .number b ∧ (a == b) = true) ∨ v = w ∧ ∀ n, v ≠ .number n := by
  cases v <;> cases w <;> simp [strictEquals]

theorem strictEquals_symm (h : v.strictEquals w = true) : w.strictEquals v = true := by
  rw [strictEquals_iff] at h ⊢
  rcases h with ⟨a, b, rfl, rfl, hab⟩ | ⟨rfl, hv⟩
  · exact .inl ⟨b, a, rfl, rfl, Number.beq_symm hab⟩
  · exact .inr ⟨rfl, hv⟩

theorem eq_of_strictEquals (h : v.strictEquals w = true) (hw : ∀ n, w ≠ .number n) : v = w := by
  rw [strictEquals_iff] at h
  rcases h with ⟨a, b, -, rfl, -⟩ | ⟨hvw, -⟩
  · exact absurd rfl (hw b)
  · exact hvw

theorem strictEquals_trans (h : u.strictEquals v = true) (h' : v.strictEquals w = true) :
    u.strictEquals w = true := by
  rw [strictEquals_iff] at h
  rcases h with ⟨a, b, rfl, rfl, hab⟩ | ⟨rfl, -⟩
  · rw [strictEquals_iff] at h' ⊢
    rcases h' with ⟨b, c, hb, rfl, hbc⟩ | ⟨-, hnumber⟩
    · cases hb
      exact .inl ⟨a, c, rfl, rfl, Number.beq_trans hab hbc⟩
    · exact absurd rfl (hnumber _)
  · exact h'

theorem strictEquals_self_iff :
    v.strictEquals v = true ↔ ∀ n, v = .number n → n.isNaN = false := by
  cases v with
  | number n =>
    change (n == n) = true ↔ _
    rw [Number.beq_self_iff]
    constructor
    · intro h m hm
      cases hm
      exact h
    · intro h
      exact h n rfl
  | _ => simp [strictEquals]

end Value

end CollectionLoops
