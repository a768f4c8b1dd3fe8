import Mathlib

/-!
# Digits, most significant first

Positional notation the way it is written and sent: `value b ds` is the number that the
digits `ds` denote in base `b`, and `fixed b w n` are the last `w` digits of `n`. Between
numbers below `b ^ w` and lists of `w` digits the two are inverse.
-/

namespace Digits

/-- The number that `ds` denotes in base `b`. -/
def value (b : ℕ) (ds : List ℕ) : ℕ := Nat.ofDigits b ds.reverse

/-- The last `w` digits of `n` in base `b`. -/
def fixed (b : ℕ) : ℕ → ℕ → List ℕ
  | 0, _ => []
  | w + 1, n => fixed b w (n / b) ++ [n % b]

variable {b : ℕ}

@[simp] theorem value_nil : value b [] = 0 := rfl

theorem value_append (ds es : List ℕ) :
    value b (ds ++ es) = value b ds * b ^ es.length + value b es := by
  rw [value, List.reverse_append, Nat.ofDigits_append, List.length_reverse, Nat.mul_comm,
    Nat.add_comm]
  rfl

@[simp] theorem value_singleton (d : ℕ) : value b [d] = d := Nat.ofDigits_singleton

/-- One more digit at the end. -/
theorem value_snoc (ds : List ℕ) (d : ℕ) : value b (ds ++ [d]) = value b ds * b + d := by
  rw [value_append, value_singleton, List.length_singleton, Nat.pow_one]

theorem value_lt (base : 1 < b) {ds : List ℕ} (digits : ∀ d ∈ ds, d < b) :
    value b ds < b ^ ds.length := by
  rw [value, ← List.length_reverse]
  exact Nat.ofDigits_lt_base_pow_length base fun d member => digits d (List.mem_reverse.mp member)

@[simp] theorem length_fixed (w n : ℕ) : (fixed b w n).length = w := by
  induction w generalizing n with
  | zero => rfl
  | succ w ih => rw [fixed, List.length_append, ih, List.length_singleton]

theorem fixed_lt (base : 0 < b) (w n : ℕ) : ∀ d ∈ fixed b w n, d < b := by
  induction w generalizing n with
  | zero => exact List.forall_mem_nil _
  | succ w ih =>
      intro d member
      rcases List.mem_append.mp member with front | last
      · exact ih (n / b) d front
      · rw [List.mem_singleton.mp last]
        exact Nat.mod_lt n base

theorem value_fixed {w n : ℕ} (less : n < b ^ w) : value b (fixed b w n) = n := by
  induction w generalizing n with
  | zero =>
      rw [Nat.pow_zero] at less
      rw [fixed, value_nil]
      omega
  | succ w ih =>
      rw [Nat.pow_succ] at less
      rw [fixed, value_snoc, ih (Nat.div_lt_of_lt_mul (by rwa [Nat.mul_comm]))]
      exact Nat.div_add_mod' n b

theorem fixed_value (base : 1 < b) {ds : List ℕ} (digits : ∀ d ∈ ds, d < b) :
    fixed b ds.length (value b ds) = ds := by
  induction ds using List.reverseRecOn with
  | nil => rfl
  | append_singleton ds d ih =>
      have small : d < b := digits d (List.mem_append_right _ (List.mem_singleton.mpr rfl))
      have front := ih fun e member => digits e (List.mem_append_left _ member)
      rw [List.length_append, List.length_singleton, fixed, value_snoc, Nat.mul_comm,
        Nat.mul_add_div (by omega), Nat.div_eq_of_lt small, Nat.add_zero, front,
        Nat.mul_add_mod, Nat.mod_eq_of_lt small]

/-- A digit in base `b * b` is two digits in base `b`. -/
theorem fixed_flatMap (w n : ℕ) :
    (fixed (b * b) w n).flatMap (fun d => [d / b, d % b]) = fixed b (2 * w) n := by
  induction w generalizing n with
  | zero => rfl
  | succ w ih =>
      rw [fixed, List.flatMap_append, ih, List.flatMap_singleton,
        show 2 * (w + 1) = 2 * w + 1 + 1 by omega, fixed, fixed, List.append_assoc,
        ← Nat.div_div_eq_div_mul, Nat.mod_mul_right_div_self, Nat.mod_mul_right_mod]
      rfl

/-- Joining digits to the more significant ones by `|` adds them. -/
theorem or_eq (k : ℕ) {x y : ℕ} (less : y < 2 ^ k) : x * 2 ^ k ||| y = x * 2 ^ k + y := by
  rw [← Nat.shiftLeft_eq, Nat.shiftLeft_add_eq_or_of_lt less]

end Digits
