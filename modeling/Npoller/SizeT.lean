import Mathlib.Order.Basic

/-!
`size_t` arithmetic on natural numbers: sums and differences are reduced modulo
the word size, so that `(size_t) -1` and wrapping sums keep their C++ values.
The two laws remove the reduction where a bound excludes a wrap.
-/

namespace Npoller.SizeT

@[irreducible] def wordSize : Nat := 18446744073709551616

/-- `(size_t) -1`. -/
def npos : Nat := 18446744073709551615

def wadd (left right : Nat) : Nat := (left + right) % wordSize

def wsub (left right : Nat) : Nat := (left + wordSize - right) % wordSize

theorem one_fits : 1 < wordSize := by
  simp only [wordSize]
  omega

theorem wadd_exact {left right : Nat} (fits : left + right < wordSize) :
    wadd left right = left + right := Nat.mod_eq_of_lt fits

theorem wsub_exact {left right : Nat} (order : right ≤ left) (fits : left < wordSize) :
    wsub left right = left - right := by
  simp only [wsub, wordSize] at *
  omega

end Npoller.SizeT
