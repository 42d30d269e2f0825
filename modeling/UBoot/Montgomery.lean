import UBoot.Octets

/-!
Montgomery multiplication with respect to an odd modulus, one digit of the
multiplier after another. `round_cancels` and `round_lt` are about one round;
`Scaled` says that a number stands for another one, times the radix, and is
kept by products.
-/
namespace UBoot.Montgomery

/-- The multiple of the modulus that is added in a round clears the lowest digit. -/
theorem round_cancels {base n inverse : Nat} (inverts : (inverse*n+1)%base = 0) (x : Nat) :
    (x+x%base*inverse%base*n)%base = 0 := by
  have same : x+x%base*inverse%base*n ≡ x*(inverse*n+1) [MOD base] := by
    have reduced : x%base*inverse%base ≡ x*inverse [MOD base] :=
      (Nat.mod_modEq _ _).trans ((Nat.mod_modEq x base).mul_right inverse)
    have sum := (reduced.mul_right n).add_left x
    rw [show x*(inverse*n+1) = x+x*inverse*n by ring]
    exact sum
  have zero : inverse*n+1 ≡ 0 [MOD base] := inverts
  exact same.trans (zero.mul_left x)

/-- A round stays below the radix and the modulus together. -/
theorem round_lt {base radix n total digit factor quotient next : Nat} (below : total < radix) (digitSmall : digit < base)
    (factorSmall : factor < radix) (quotientSmall : quotient < base) (positive : 0 < n)
    (sum : base*next = total+digit*factor+quotient*n) : next < radix+n := by
  have product : digit*factor ≤ (base-1)*(radix-1) := Nat.mul_le_mul (by omega) (by omega)
  have multiple : quotient*n ≤ (base-1)*n := Nat.mul_le_mul_right n (by omega)
  obtain ⟨b,rfl⟩ : ∃ b, base = b+1 := ⟨base-1,by omega⟩
  obtain ⟨r,rfl⟩ : ∃ r, radix = r+1 := ⟨radix-1,by omega⟩
  simp only [Nat.add_sub_cancel] at product multiple
  have bound : (b+1)*next < (b+1)*(r+1+n) := by
    calc (b+1)*next = total+digit*factor+quotient*n := sum
      _ ≤ r+b*r+b*n := by omega
      _ < (b+1)*(r+1+n) := by nlinarith
  exact Nat.lt_of_mul_lt_mul_left bound

/-- One more digit of the multiplier. -/
theorem rounds_modEq {base n total digit rest factor next out : Nat} {len : Nat}
    (first : base*next ≡ total+digit*factor [MOD n]) (later : base^len*out ≡ next+rest*factor [MOD n]) :
    base^(len+1)*out ≡ total+(digit+base*rest)*factor [MOD n] := by
  calc base^(len+1)*out = base*(base^len*out) := by rw [pow_succ]; ring
    _ ≡ base*(next+rest*factor) [MOD n] := later.mul_left base
    _ = base*next+base*rest*factor := by ring
    _ ≡ total+digit*factor+base*rest*factor [MOD n] := first.add_right _
    _ = total+(digit+base*rest)*factor := by ring

def Scaled (radix n x y : Nat) : Prop := y ≡ x*radix [MOD n]

variable {radix n : Nat}

/-- A Montgomery product of scaled numbers is scaled. -/
theorem Scaled.mul (coprime : Nat.Coprime n radix) {x y a b out : Nat} (left : Scaled radix n x a)
    (right : Scaled radix n y b) (product : radix*out ≡ a*b [MOD n]) : Scaled radix n (x*y) out := by
  have whole : radix*out ≡ radix*(x*y*radix) [MOD n] := by
    calc radix*out ≡ a*b [MOD n] := product
      _ ≡ (x*radix)*(y*radix) [MOD n] := Nat.ModEq.mul left right
      _ = radix*(x*y*radix) := by ring
  exact Nat.ModEq.cancel_left_of_coprime coprime whole

/-- The product with the square of the radix scales a number. -/
theorem scaled_of_square (coprime : Nat.Coprime n radix) {x square out : Nat} (squared : square ≡ radix*radix [MOD n])
    (product : radix*out ≡ x*square [MOD n]) : Scaled radix n x out := by
  have whole : radix*out ≡ radix*(x*radix) [MOD n] := by
    calc radix*out ≡ x*square [MOD n] := product
      _ ≡ x*(radix*radix) [MOD n] := squared.mul_left x
      _ = radix*(x*radix) := by ring
  exact Nat.ModEq.cancel_left_of_coprime coprime whole

/-- The product with a number that is not scaled takes the radix away. -/
theorem Scaled.unscale (coprime : Nat.Coprime n radix) {x y a out : Nat} (scaled : Scaled radix n x a)
    (product : radix*out ≡ a*y [MOD n]) : out ≡ x*y [MOD n] := by
  have whole : radix*out ≡ radix*(x*y) [MOD n] := by
    calc radix*out ≡ a*y [MOD n] := product
      _ ≡ x*radix*y [MOD n] := scaled.mul_right y
      _ = radix*(x*y) := by ring
  exact Nat.ModEq.cancel_left_of_coprime coprime whole

end UBoot.Montgomery
