/-! Numbers from their digits to any base. Digits are joined in pairs, which is quick for many of
them and gives the same number as joining them one by one. -/
namespace GoldenCircuit

/-- The number that digits to a base denote, the least significant first. -/
def ofDigits (base : Nat) (digits : List Nat) : Nat :=
  digits.foldr (fun digit high => digit + base * high) 0

/-- Takes digits together in pairs, which are digits to the square of the base. -/
def pairDigits (base : Nat) : List Nat → List Nat
  | low :: high :: digits => (low + base * high) :: pairDigits base digits
  | digits => digits

/-- The number that digits to a base denote, the least significant first. Adjacent digits are taken
together until a single one is left, at most `fuel` times, which keeps the work small for many
digits. -/
def joinDigits : (fuel base : Nat) → List Nat → Nat
  | fuel + 1, base, low :: high :: digits =>
    joinDigits fuel (base * base) (pairDigits base (low :: high :: digits))
  | _, base, digits => ofDigits base digits

/-- Pairs of digits denote the number that the digits denote. -/
theorem ofDigits_pairDigits (base : Nat) (digits : List Nat) :
    ofDigits (base * base) (pairDigits base digits) = ofDigits base digits := by
  fun_induction pairDigits base digits with
  | case1 low high digits ih =>
    have split : ofDigits (base * base) ((low + base * high) :: pairDigits base digits) =
        low + base * high + base * base * ofDigits (base * base) (pairDigits base digits) := rfl
    rw [split, ih]
    show low + base * high + base * base * ofDigits base digits =
      low + base * (high + base * ofDigits base digits)
    rw [Nat.mul_add, Nat.mul_assoc, Nat.add_assoc]
  | case2 digits single =>
    match digits, single with
    | [], _ => rfl
    | [digit], _ => simp [ofDigits]
    | low :: high :: rest, single => exact absurd rfl (single low high rest)

/-- Whatever the number of times that digits are taken together, they denote the same number. -/
theorem joinDigits_eq (fuel base : Nat) (digits : List Nat) :
    joinDigits fuel base digits = ofDigits base digits := by
  fun_induction joinDigits fuel base digits with
  | case1 base low high digits fuel ih => rw [ih, ofDigits_pairDigits]
  | case2 => rfl

end GoldenCircuit
