import Mathlib.Data.Nat.Digits.Defs
import Mathlib.Tactic

/-!
Numbers as octet strings with the most significant octet first, and as digits
with the least significant digit first. `os2ip` reads a string, `i2osp` writes a
number in so many octets.
-/
namespace UBoot.Octets
open List

def os2ip (octets : List UInt8) : Nat := octets.foldl (fun n octet => 256*n+octet.toNat) 0

def i2osp : Nat → Nat → List UInt8
  | 0, _ => []
  | len+1, n => i2osp len (n/256) ++ [UInt8.ofNat n]

@[simp] theorem os2ip_nil : os2ip [] = 0 := rfl

theorem os2ip_append (first second : List UInt8) :
    os2ip (first ++ second) = os2ip first*256^second.length+os2ip second := by
  have shifted (octets : List UInt8) (n : Nat) :
      octets.foldl (fun n octet => 256*n+octet.toNat) n = n*256^octets.length+os2ip octets := by
    unfold os2ip
    induction octets generalizing n with
    | nil => simp
    | cons octet rest ih =>
      simp only [foldl_cons,length_cons]
      rw [ih,ih (256*0+octet.toNat),pow_succ]
      ring
  rw [os2ip,foldl_append,shifted]
  rfl

@[simp] theorem os2ip_singleton (octet : UInt8) : os2ip [octet] = octet.toNat := by simp [os2ip]

theorem os2ip_snoc (octets : List UInt8) (octet : UInt8) : os2ip (octets ++ [octet]) = os2ip octets*256+octet.toNat := by
  rw [os2ip_append,os2ip_singleton]
  simp

theorem os2ip_lt (octets : List UInt8) : os2ip octets < 256^octets.length := by
  induction octets using reverseRecOn with
  | nil => simp
  | append_singleton octets octet ih =>
    have small := octet.toNat_lt
    rw [os2ip_snoc,length_append,length_singleton,pow_succ]
    omega

@[simp] theorem i2osp_length (len n : Nat) : (i2osp len n).length = len := by
  induction len generalizing n with
  | zero => rfl
  | succ len ih => simp [i2osp,ih]

theorem os2ip_i2osp {len n : Nat} (fits : n < 256^len) : os2ip (i2osp len n) = n := by
  induction len generalizing n with
  | zero =>
    simp only [pow_zero,Nat.lt_one_iff] at fits
    simp [i2osp,fits]
  | succ len ih =>
    rw [pow_succ] at fits
    rw [i2osp,os2ip_snoc,ih (by omega)]
    simp only [UInt8.toNat_ofNat']
    omega

theorem os2ip_injective {one two : List UInt8} (length : one.length = two.length) (same : os2ip one = os2ip two) :
    one = two := by
  induction one using reverseRecOn generalizing two with
  | nil => exact (length_eq_zero_iff.mp length.symm).symm
  | append_singleton first octet ih =>
    cases two using reverseRecOn with
    | nil => simp at length
    | append_singleton second other =>
      have octetSmall := octet.toNat_lt
      have otherSmall := other.toNat_lt
      rw [os2ip_snoc,os2ip_snoc] at same
      rw [ih (by simpa using length) (by omega),UInt8.toNat_inj.mp (show octet.toNat = other.toNat by omega)]

def Digits (base : Nat) (digits : List Nat) : Prop := ∀ digit ∈ digits, digit < base

@[simp] theorem digits_nil {base : Nat} : Digits base [] := by simp [Digits]

@[simp] theorem digits_cons {base digit : Nat} {rest : List Nat} :
    Digits base (digit :: rest) ↔ digit < base ∧ Digits base rest := by
  simp [Digits]

@[simp] theorem digits_append {base : Nat} {first second : List Nat} :
    Digits base (first ++ second) ↔ Digits base first ∧ Digits base second := by
  simp [Digits,or_imp,forall_and]

theorem ofDigits_lt {base : Nat} (large : 1 < base) {digits : List Nat} (small : Digits base digits) :
    Nat.ofDigits base digits < base^digits.length :=
  Nat.ofDigits_lt_base_pow_length large small

theorem ofDigits_snoc (base : Nat) (digits : List Nat) (digit : Nat) :
    Nat.ofDigits base (digits ++ [digit]) = Nat.ofDigits base digits+base^digits.length*digit := by
  rw [Nat.ofDigits_append,Nat.ofDigits_singleton]

end UBoot.Octets
