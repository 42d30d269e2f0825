import UBoot.Memory

/-!
Machine words: the `int` with wrapping arithmetic (the build has
`-fno-strict-overflow`), rounding up to a multiple, and 32-bit words in
little-endian byte memory.
-/
namespace UBoot.Words
open UBoot.Memory

def intMax : Nat := 2^31-1

def wrap (n : Int) : Int := Int.bmod n (2^32)

theorem wrap_le (n : Int) : wrap n ≤ intMax := by
  have := Int.bmod_lt (x := n) (m := 2^32) (by decide)
  unfold wrap intMax
  omega

theorem le_wrap (n : Int) : -2^31 ≤ wrap n := by
  have := Int.le_bmod (x := n) (m := 2^32) (by decide)
  unfold wrap
  omega

theorem wrap_of_int {n : Nat} (int : n ≤ intMax) : wrap n = n := by
  unfold intMax at int
  apply Int.bmod_eq_of_le <;> omega

theorem wrap_mul_two (n : Int) : wrap (wrap n*2) = wrap (n*2) := Int.bmod_mul_bmod

/-- From the 32nd doubling on an `int` is 0. -/
theorem wrap_vanishes (n : Int) (k : Nat) : wrap (n*2^(32+k)) = 0 := by
  have factored : n*2^(32+k) = 2^32*(n*2^k) := by ring
  rw [wrap,factored]
  exact Int.mul_bmod_right _ _

def roundUp (n m : Nat) : Nat := (n+m-1)/m*m

theorem roundUp_dvd (n m : Nat) : m ∣ roundUp n m := Nat.dvd_mul_left m _

theorem le_roundUp (n : Nat) {m : Nat} (positive : 0 < m) : n ≤ roundUp n m := by
  have whole := Nat.div_add_mod (n+m-1) m
  have rest := Nat.mod_lt (n+m-1) positive
  unfold roundUp
  rw [mul_comm]
  omega

theorem roundUp_eq_self {n m : Nat} (positive : 0 < m) : roundUp n m = n ↔ m ∣ n := by
  constructor
  · intro same
    rw [← same]
    exact roundUp_dvd n m
  · rintro ⟨k,rfl⟩
    have exact_ : (m*k+m-1)/m = k := by
      rw [Nat.add_sub_assoc positive,Nat.mul_add_div positive,Nat.div_eq_of_lt (by omega),add_zero]
    rw [roundUp,exact_,mul_comm]

theorem roundUp_le {n m k : Nat} (positive : 0 < m) (multiple : m ∣ k) (below : n ≤ k) : roundUp n m ≤ k := by
  obtain ⟨j,rfl⟩ := multiple
  have few : (n+m-1)/m ≤ j := by
    rw [← Nat.lt_succ_iff,Nat.div_lt_iff_lt_mul positive,Nat.succ_mul,mul_comm]
    omega
  rw [roundUp,mul_comm]
  exact Nat.mul_le_mul_left m few

/-- What is missing to the next multiple of `m`. -/
def padding (n m : Nat) : Nat := (m-n%m)%m

theorem padding_lt (n : Nat) {m : Nat} (positive : 0 < m) : padding n m < m := Nat.mod_lt _ positive

theorem dvd_add_padding (n : Nat) {m : Nat} (positive : 0 < m) : m ∣ n+padding n m := by
  have rest := Nat.mod_lt n positive
  have whole := Nat.div_add_mod n m
  unfold padding
  by_cases zero : n%m = 0
  · rw [zero,Nat.sub_zero,Nat.mod_self,add_zero]
    exact Nat.dvd_of_mod_eq_zero zero
  · rw [Nat.mod_eq_of_lt (show m-n%m < m by omega)]
    refine ⟨n/m+1,?_⟩
    rw [mul_add,mul_one]
    omega

theorem padding_eq_zero {n m : Nat} (multiple : m ∣ n) : padding n m = 0 := by
  rw [padding,Nat.mod_eq_zero_of_dvd multiple,Nat.sub_zero,Nat.mod_self]

/-- The bytes of a 32-bit word, lowest first. -/
def le32 (w : Nat) : List UInt8 :=
  [UInt8.ofNat w,UInt8.ofNat (w/2^8),UInt8.ofNat (w/2^16),UInt8.ofNat (w/2^24)]

/-- The 32-bit word at an address. -/
def word (m : Nat → UInt8) (a : Nat) : Nat :=
  (m a).toNat+(m (a+1)).toNat*2^8+(m (a+2)).toNat*2^16+(m (a+3)).toNat*2^24

theorem word_congr {m m' : Nat → UInt8} {a : Nat} (same : ∀ i, i < 4 → m (a+i) = m' (a+i)) :
    word m a = word m' a := by
  have b0 := same 0 (by decide)
  have b1 := same 1 (by decide)
  have b2 := same 2 (by decide)
  have b3 := same 3 (by decide)
  rw [add_zero] at b0
  unfold word
  rw [b0,b1,b2,b3]

/-- A word that is written and read back. -/
theorem word_store {w : Nat} (small : w < 2^32) (m : Nat → UInt8) (a : Nat) : word (store m a (le32 w)) a = w := by
  have b0 : store m a (le32 w) (a+0) = UInt8.ofNat w := store_inside m rfl
  have b1 : store m a (le32 w) (a+1) = UInt8.ofNat (w/2^8) := store_inside m rfl
  have b2 : store m a (le32 w) (a+2) = UInt8.ofNat (w/2^16) := store_inside m rfl
  have b3 : store m a (le32 w) (a+3) = UInt8.ofNat (w/2^24) := store_inside m rfl
  rw [add_zero] at b0
  unfold word
  rw [b0,b1,b2,b3]
  simp only [UInt8.toNat_ofNat']
  omega

/-- A word apart from the block that is written. -/
theorem word_store_apart (m : Nat → UInt8) {a b : Nat} {bs : List UInt8} (apart : b+4 ≤ a ∨ a+bs.length ≤ b) :
    word (store m a bs) b = word m b := by
  apply word_congr
  intro i inside
  rcases apart with low | high
  · exact store_below m bs (by omega)
  · exact store_above m bs (by omega)

/-- What has no bit outside a mask is in the mask. -/
theorem and_eq_self {w : Nat} {a m : BitVec w} (outside : a &&& ~~~m = 0) : a &&& m = a := by
  refine BitVec.eq_of_getLsbD_eq (fun i inside => ?_)
  have bit := congrArg (fun b => b.getLsbD i) outside
  simp only [BitVec.getLsbD_and,BitVec.getLsbD_not,inside,BitVec.ofNat_eq_ofNat,BitVec.getLsbD_zero,decide_true,
    Bool.true_and] at bit ⊢
  cases first : a.getLsbD i with
  | false => rfl
  | true =>
    rw [first] at bit
    simpa using bit

end UBoot.Words
