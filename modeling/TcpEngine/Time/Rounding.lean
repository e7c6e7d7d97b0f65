/-!
Rounding of exact quotients to nearest, ties to even: to a whole number, and to 53 significant bits.
Fractions are written as multiples of one fixed unit, so a value has 53 significant bits exactly
when its multiple has.
-/
namespace TcpEngine
namespace Rounding

/-- `n / d` rounded to a whole number, a tie to the even one. -/
def nearest (n d : Nat) : Nat :=
  if 2 * (n % d) < d then n / d
  else if d < 2 * (n % d) then n / d + 1
  else n / d + n / d % 2

def significant (n d : Nat) : Nat :=
  let place := 1 <<< ((n / d).log2 - 52)
  nearest n (d * place) * place

def unit : Nat := 1 <<< 192

end Rounding
end TcpEngine
