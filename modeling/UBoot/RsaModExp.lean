import UBoot.Montgomery
import UBoot.Words
import Mathlib.Data.Nat.Bitwise

/-!
The modular exponentiation in software of `lib/rsa/rsa-mod-exp.c`. Numbers are
arrays of 32-bit words with the lowest word first. A Montgomery product may
exceed the modulus and is reduced only when it does not fit the array; the last
product is reduced once. The bits of the exponent are tested through an `int`.
-/
namespace UBoot.RsaModExp
open UBoot.Words UBoot.Octets UBoot.Montgomery List

def EBADF : Int := 9
def EFAULT : Int := 14
def EINVAL : Int := 22

def RSA_MIN_KEY_BITS : Nat := 2048
def RSA_MAX_KEY_BITS : Nat := 4096
def RSA_DEFAULT_PUBEXP : Nat := 65537

/-- `struct key_prop`, each pointer with the octets behind it, `none` for null. -/
structure KeyProp where
  rr : Option (List UInt8)
  modulus : Option (List UInt8)
  public_exponent : Option (List UInt8)
  n0inv : Nat
  num_bits : Int

structure RsaPublicKey where
  len : Nat
  n0inv : Nat
  modulus : List Nat
  rr : List Nat
  exponent : Nat

/-- The number of values of a `uint32_t`; a `uint64_t` has its square. -/
def WORD : Nat := 2^32

/-- The loop of `subtract_modulus`; the shift of a negative `acc` rounds down. -/
def subtract_from : Int → List Nat → List Nat → List Nat
  | acc, num :: rest, modulus :: more =>
    let acc := acc+num-modulus
    (acc%WORD).toNat :: subtract_from (acc/WORD) rest more
  | _, _, _ => []

def subtract_modulus (key : RsaPublicKey) (num : List Nat) : List Nat := subtract_from 0 num key.modulus

/-- The loop of `greater_equal_modulus`, from the highest words down. -/
def greater_equal_from : List (Nat × Nat) → Bool
  | [] => true
  | (num,modulus) :: below =>
    if num < modulus then false
    else if num > modulus then true
    else greater_equal_from below

def greater_equal_modulus (key : RsaPublicKey) (num : List Nat) : Bool :=
  greater_equal_from (num.zip key.modulus).reverse

/-- The loop of `montgomery_mul_add_step` over the words behind the first one:
    the words that are stored, and both accumulators. -/
def mul_add_from (a d0 : Nat) : Nat → Nat → List Nat → List Nat → List Nat → List Nat × Nat × Nat
  | acc_a, acc_b, b :: bs, result :: results, modulus :: moduli =>
    let acc_a := (acc_a/WORD+a*b+result)%WORD^2
    let acc_b := (acc_b/WORD+d0*modulus+acc_a%WORD)%WORD^2
    let rest := mul_add_from a d0 acc_a acc_b bs results moduli
    (acc_b%WORD :: rest.1,rest.2)
  | acc_a, acc_b, _, _, _ => ([],acc_a,acc_b)

def montgomery_mul_add_step (key : RsaPublicKey) (result : List Nat) (a : Nat) (b : List Nat) : List Nat :=
  match b, result, key.modulus with
  | b0 :: bs, result0 :: results, modulus0 :: moduli =>
    let acc_a := (a*b0+result0)%WORD^2
    let d0 := acc_a%WORD*key.n0inv%WORD
    let acc_b := (d0*modulus0+acc_a%WORD)%WORD^2
    let words := mul_add_from a d0 acc_a acc_b bs results moduli
    let acc_a := (words.2.1/WORD+words.2.2/WORD)%WORD^2
    let result := words.1 ++ [acc_a%WORD]
    if acc_a/WORD ≠ 0 then subtract_modulus key result else result
  | _, _, _ => []

def montgomery_mul (key : RsaPublicKey) (a b : List Nat) : List Nat :=
  a.foldl (fun result word => montgomery_mul_add_step key result word b) (List.replicate key.len 0)

/-- The loop of `num_public_exponent_bits` for so many rounds, `none` for
    `-EINVAL`. -/
def num_bits_from : Nat → Nat → Nat → Option Nat
  | 0, _, _ => none
  | rounds+1, exponent_bits, exponent =>
    if exponent/2 = 0 then some exponent_bits else num_bits_from rounds (exponent_bits+1) (exponent/2)

def num_public_exponent_bits (key : RsaPublicKey) : Option Nat :=
  if key.exponent = 0 then some 0 else num_bits_from 64 1 key.exponent

/-- The 64-bit value goes through the `int` that is returned. -/
def is_public_exponent_bit_set (key : RsaPublicKey) (pos : Nat) : Int := wrap ((key.exponent &&& 1 <<< pos : Nat) : Int)

/-- One round of the loop of `pow_mod`, for bit `j` of the exponent. -/
def pow_step (key : RsaPublicKey) (a_scaled : List Nat) (j : Nat) (acc : List Nat) : List Nat :=
  let tmp := montgomery_mul key acc acc
  if is_public_exponent_bit_set key j ≠ 0 then montgomery_mul key tmp a_scaled else tmp

/-- The loop from bit `j` down to bit 1. -/
def pow_from (step : Nat → List Nat → List Nat) : Nat → List Nat → List Nat
  | 0, acc => acc
  | j+1, acc => pow_from step j (step (j+1) acc)

def be32 (octets : List UInt8) (off : Nat) : Nat := os2ip ((octets.drop off).take 4)

/-- Words with the lowest one first, from octets with the highest one first. -/
def rsa_convert_big_endian (src : List UInt8) (len : Nat) : List Nat :=
  (List.range len).map fun i => be32 src (4*(len-1-i))

/-- The last of the products of `pow_mod`, for an exponent of `k` bits. -/
def pow_product (key : RsaPublicKey) (val : List Nat) (k : Nat) : List Nat :=
  let a_scaled := montgomery_mul key val key.rr
  let acc := pow_from (pow_step key a_scaled) (k-2) a_scaled
  let tmp := montgomery_mul key acc acc
  montgomery_mul key tmp val

def pow_result (key : RsaPublicKey) (val : List Nat) (k : Nat) : List Nat :=
  let result := pow_product key val k
  if greater_equal_modulus key result then subtract_modulus key result else result

def pow_mod (key : RsaPublicKey) (inout : List UInt8) : Except Int (List UInt8) :=
  if key.len > RSA_MAX_KEY_BITS/32 then .error (-EINVAL)
  else
    match num_public_exponent_bits key with
    | none => .error (-EINVAL)
    | some k =>
      if k < 2 then .error (-EINVAL)
      else if is_public_exponent_bit_set key 0 = 0 then .error (-EINVAL)
      else
        let val := rsa_convert_big_endian inout key.len
        .ok ((pow_result key val k).reverse.flatMap (i2osp 4) ++ inout.drop (4*key.len))

/-- The contents of `out` after the call. No value where the signature is not a
    whole number of words or has fewer than the key. -/
def rsa_mod_exp_sw (sig : List UInt8) (prop : Option KeyProp) : Option (Except Int (List UInt8)) :=
  match prop with
  | none => some (.error (-EBADF))
  | some prop =>
    let exponent := prop.public_exponent.elim RSA_DEFAULT_PUBEXP fun octets => os2ip (octets.take 8)
    let bits := (prop.num_bits%2^32).toNat
    match prop.modulus, prop.rr with
    | some modulus, some rr =>
      if bits = 0 then some (.error (-EFAULT))
      else if bits > RSA_MAX_KEY_BITS ∨ bits < RSA_MIN_KEY_BITS then some (.error (-EFAULT))
      else
        let len := bits/32
        let key := ⟨len,prop.n0inv,rsa_convert_big_endian modulus len,rsa_convert_big_endian rr len,exponent⟩
        if sig.length%4 ≠ 0 ∨ sig.length < 4*len then none else some (pow_mod key sig)
    | _, _ => some (.error (-EFAULT))

theorem word_positive : 0 < WORD := by simp [WORD]

def value (words : List Nat) : Nat := Nat.ofDigits WORD words

variable {e : Nat} {modulus num words : List Nat}

theorem value_lt (small : Digits WORD words) : value words < WORD^words.length :=
  ofDigits_lt (by simp [WORD]) small

@[simp] theorem value_nil : value [] = 0 := rfl

@[simp] theorem value_cons (word : Nat) (rest : List Nat) : value (word :: rest) = word+WORD*value rest :=
  Nat.ofDigits_cons

theorem emod_digits (t y : Int) {base power : Int} (positive : 0 < base) (powerPositive : 0 < power) :
    t%base+base*((t/base+y)%power) = (t+base*y)%(base*power) := by
  have split := Int.emod_add_mul_ediv t base
  have low := Int.emod_nonneg t (ne_of_gt positive)
  have high := Int.emod_lt_of_pos t positive
  have least := Int.emod_nonneg (t/base+y) (ne_of_gt powerPositive)
  have most := Int.emod_lt_of_pos (t/base+y) powerPositive
  have whole := Int.emod_add_mul_ediv (t/base+y) power
  have same : t+base*y = t%base+base*((t/base+y)%power)+base*power*((t/base+y)/power) := by
    linear_combination -base*whole-split
  rw [same,Int.add_mul_emod_self_left]
  refine (Int.emod_eq_of_lt (by positivity) ?_).symm
  nlinarith

theorem subtract_from_value (length : num.length = modulus.length) (acc : Int) :
    (subtract_from acc num modulus).length = num.length ∧ Digits WORD (subtract_from acc num modulus) ∧
      (value (subtract_from acc num modulus) : Int) = (acc+value num-value modulus)%(WORD^num.length : Nat) := by
  have positive : (0 : Int) < WORD := by exact_mod_cast word_positive
  induction num generalizing acc modulus with
  | nil =>
    cases modulus with
    | nil => simp [subtract_from]
    | cons m more => contradiction
  | cons x rest ih =>
    cases modulus with
    | nil => contradiction
    | cons m more =>
      obtain ⟨same,small,later⟩ := ih (by simpa using length) ((acc+x-m)/WORD)
      have nonneg : 0 ≤ (acc+x-m)%WORD := Int.emod_nonneg _ (ne_of_gt positive)
      have less : (acc+x-m)%WORD < WORD := Int.emod_lt_of_pos _ positive
      have powerPositive : (0 : Int) < (WORD : Int)^rest.length := by positivity
      refine ⟨by simp [subtract_from,same],?_,?_⟩
      · simp only [subtract_from,digits_cons]
        exact ⟨by omega,small⟩
      · simp only [subtract_from,value_cons,length_cons,pow_succ]
        push_cast at later ⊢
        rw [later,Int.toNat_of_nonneg nonneg,
          show (acc+x-m)/WORD+(value rest : Int)-value more = (acc+x-m)/WORD+((value rest : Int)-value more) by ring,
          emod_digits _ _ positive powerPositive,mul_comm ((WORD : Int)^rest.length)]
        congr 1
        ring

theorem subtract_modulus_exact {key : RsaPublicKey} (length : num.length = key.modulus.length)
    {total : Nat} (same : total%WORD^num.length = value num) (large : value key.modulus ≤ total)
    (less : total < WORD^num.length+value key.modulus) :
    (subtract_modulus key num).length = num.length ∧ Digits WORD (subtract_modulus key num) ∧
      value (subtract_modulus key num)+value key.modulus = total := by
  obtain ⟨len,small,result⟩ := subtract_from_value length 0
  refine ⟨len,small,?_⟩
  have congruent : ((total : Int)-value key.modulus)%(WORD^num.length : Nat) =
      (0+value num-value key.modulus)%(WORD^num.length : Nat) := by
    rw [zero_add,← same,Int.natCast_mod,Int.emod_sub_emod]
  rw [← congruent,Int.emod_eq_of_lt (by omega) (by omega)] at result
  unfold subtract_modulus
  omega

theorem greater_equal_from_snoc (above : List (Nat × Nat)) (num modulus : Nat) :
    greater_equal_from (above ++ [(num,modulus)]) =
      if above.all (fun pair => pair.1 = pair.2) then decide (modulus ≤ num) else greater_equal_from above := by
  induction above with
  | nil =>
    by_cases less : num < modulus
    · simp [greater_equal_from,less]
    · simp [greater_equal_from,less,not_lt.mp less]
  | cons pair rest ih =>
    obtain ⟨x,m⟩ := pair
    simp only [cons_append,greater_equal_from,all_cons]
    by_cases less : x < m
    · simp [less,ne_of_lt less]
    · by_cases more : x > m
      · simp [less,more,ne_of_gt more]
      · obtain rfl : x = m := by omega
        simp only [less,if_false,ih,decide_true,Bool.true_and]

theorem zip_all_eq (length : num.length = modulus.length) :
    (num.zip modulus).reverse.all (fun pair => pair.1 = pair.2) = decide (num = modulus) := by
  rw [all_reverse]
  induction num generalizing modulus with
  | nil =>
    cases modulus with
    | nil => simp
    | cons m more => contradiction
  | cons x rest ih =>
    cases modulus with
    | nil => contradiction
    | cons m more => simp [ih (show rest.length = more.length by simpa using length)]

theorem greater_equal_value (length : num.length = modulus.length) (small : Digits WORD num)
    (modulusSmall : Digits WORD modulus) :
    greater_equal_from (num.zip modulus).reverse = decide (value modulus ≤ value num) := by
  induction num generalizing modulus with
  | nil =>
    cases modulus with
    | nil => simp [greater_equal_from]
    | cons m more => contradiction
  | cons x rest ih =>
    cases modulus with
    | nil => contradiction
    | cons m more =>
      obtain ⟨xSmall,restSmall⟩ := digits_cons.mp small
      obtain ⟨mSmall,moreSmall⟩ := digits_cons.mp modulusSmall
      have len : rest.length = more.length := by simpa using length
      rw [zip_cons_cons,reverse_cons,greater_equal_from_snoc,zip_all_eq len,ih len restSmall moreSmall]
      by_cases same : rest = more
      · simp [same]
      -- The higher words differ and decide.
      have apart : value rest ≠ value more := fun equal =>
        same (Nat.ofDigits_inj_of_len_eq (by simp [WORD]) len restSmall moreSmall equal)
      simp only [same,decide_false,value_cons]
      rw [if_neg (by simp),decide_eq_decide]
      rcases Nat.lt_or_gt_of_ne apart with below | above
      · have := Nat.mul_le_mul_left WORD (show value rest+1 ≤ value more by omega)
        rw [mul_add] at this
        omega
      · have := Nat.mul_le_mul_left WORD (show value more+1 ≤ value rest by omega)
        rw [mul_add] at this
        omega

theorem accumulator_lt {carry x y z : Nat} (carrySmall : carry < WORD) (xSmall : x < WORD) (ySmall : y < WORD)
    (zSmall : z < WORD) : carry+x*y+z < WORD^2 := by
  obtain ⟨w,same⟩ : ∃ w, WORD = w+1 := ⟨WORD-1,by omega⟩
  rw [same] at carrySmall xSmall ySmall zSmall ⊢
  have product : x*y ≤ w*w := Nat.mul_le_mul (by omega) (by omega)
  nlinarith

theorem carry_lt {acc : Nat} (small : acc < WORD^2) : acc/WORD < WORD := by
  rw [Nat.div_lt_iff_lt_mul word_positive]
  rwa [pow_two] at small

theorem mul_add_from_value {a d0 : Nat} (aSmall : a < WORD) (dSmall : d0 < WORD) {bs results moduli : List Nat}
    (one : results.length = bs.length) (two : moduli.length = bs.length) (bSmall : Digits WORD bs)
    (resultSmall : Digits WORD results) (modulusSmall : Digits WORD moduli) {acc_a acc_b : Nat}
    (aFits : acc_a < WORD^2) (bFits : acc_b < WORD^2) {end_a end_b : Nat}
    (runs : mul_add_from a d0 acc_a acc_b bs results moduli = (words,end_a,end_b)) :
    words.length = bs.length ∧ Digits WORD words ∧ end_a < WORD^2 ∧ end_b < WORD^2 ∧
      value words+WORD^bs.length*(end_a/WORD+end_b/WORD) =
        acc_a/WORD+acc_b/WORD+a*value bs+value results+d0*value moduli := by
  induction bs generalizing results moduli acc_a acc_b words with
  | nil =>
    obtain rfl := length_eq_zero_iff.mp one
    obtain rfl := length_eq_zero_iff.mp two
    simp only [mul_add_from,Prod.mk.injEq] at runs
    obtain ⟨rfl,rfl,rfl⟩ := runs
    simp [aFits,bFits]
  | cons b bs ih =>
    cases results with
    | nil => contradiction
    | cons result results =>
      cases moduli with
      | nil => contradiction
      | cons modulus moduli =>
        obtain ⟨b0,bRest⟩ := digits_cons.mp bSmall
        obtain ⟨r0,rRest⟩ := digits_cons.mp resultSmall
        obtain ⟨m0,mRest⟩ := digits_cons.mp modulusSmall
        have first := accumulator_lt (carry_lt aFits) aSmall b0 r0
        have low : (acc_a/WORD+a*b+result)%WORD < WORD := Nat.mod_lt _ word_positive
        have second := accumulator_lt (carry_lt bFits) dSmall m0 low
        simp only [mul_add_from,Nat.mod_eq_of_lt first,Nat.mod_eq_of_lt second,Prod.mk.injEq] at runs
        obtain ⟨rfl,rest⟩ := runs
        obtain ⟨len,small,aEnd,bEnd,sum⟩ := ih (by simpa using one) (by simpa using two) bRest rRest mRest first second
          (Prod.ext rfl rest)
        refine ⟨by simp [len],digits_cons.mpr ⟨Nat.mod_lt _ word_positive,small⟩,aEnd,bEnd,?_⟩
        have split_a := Nat.mod_add_div (acc_a/WORD+a*b+result) WORD
        have split_b := Nat.mod_add_div (acc_b/WORD+d0*modulus+(acc_a/WORD+a*b+result)%WORD) WORD
        simp only [value_cons,length_cons,pow_succ]
        linear_combination split_a+split_b+WORD*sum

/-- The arrays of a key are as long as it says, and its inverse inverts. -/
structure WellFormed (key : RsaPublicKey) : Prop where
  modulus : key.modulus.length = key.len ∧ Digits WORD key.modulus
  rr : key.rr.length = key.len ∧ Digits WORD key.rr
  inverts : (key.n0inv*value key.modulus+1)%WORD = 0
  positive : 0 < value key.modulus

def Array (key : RsaPublicKey) (words : List Nat) : Prop := words.length = key.len ∧ Digits WORD words

variable {key : RsaPublicKey}

theorem Array.value_lt {words : List Nat} (array : Array key words) : value words < WORD^key.len := by
  rw [← array.1]
  exact RsaModExp.value_lt array.2

theorem round_sum {a b0 result0 modulus0 n0inv : Nat} {bs results moduli words : List Nat} {end_a end_b : Nat}
    (inverts : (n0inv*value (modulus0 :: moduli)+1)%WORD = 0)
    (sum : value words+WORD^bs.length*(end_a/WORD+end_b/WORD) = (a*b0+result0)/WORD+
      ((a*b0+result0)%WORD*n0inv%WORD*modulus0+(a*b0+result0)%WORD)/WORD+a*value bs+value results+
      (a*b0+result0)%WORD*n0inv%WORD*value moduli) :
    WORD*(value words+WORD^bs.length*(end_a/WORD+end_b/WORD)) =
      value (result0 :: results)+a*value (b0 :: bs)+(a*b0+result0)%WORD*n0inv%WORD*value (modulus0 :: moduli) := by
  have cancels := round_cancels inverts (a*b0+result0)
  rw [value_cons] at cancels
  set x := a*b0+result0 with xIs
  set q := x%WORD*n0inv%WORD with qIs
  have split_a := Nat.mod_add_div x WORD
  have low : (q*modulus0+x%WORD)%WORD = 0 := by
    rw [← cancels]
    refine Nat.ModEq.symm ?_
    calc x+q*(modulus0+WORD*value moduli) = (q*modulus0+x)+WORD*(q*value moduli) := by ring
      _ ≡ q*modulus0+x [MOD WORD] := by simp [Nat.ModEq]
      _ ≡ q*modulus0+x%WORD [MOD WORD] := (Nat.mod_modEq x WORD).symm.add_left _
  have split_b := Nat.mod_add_div (q*modulus0+x%WORD) WORD
  rw [low] at split_b
  simp only [value_cons]
  rw [sum]
  linear_combination split_a+split_b+xIs

/-- One round: the sum is divisible by the base, and what does not fit the array
    is reduced once. -/
theorem montgomery_mul_add_step_value (formed : WellFormed key) {result b : List Nat} {a : Nat}
    (resultArray : Array key result) (aSmall : a < WORD) (bArray : Array key b) :
    Array key (montgomery_mul_add_step key result a b) ∧
      WORD*value (montgomery_mul_add_step key result a b) ≡ value result+a*value b [MOD value key.modulus] := by
  have resultLess := resultArray.value_lt
  have bLess := bArray.value_lt
  obtain ⟨resultLen,resultSmall⟩ := resultArray
  obtain ⟨bLen,bSmall⟩ := bArray
  obtain ⟨modulusLen,modulusSmall⟩ := formed.modulus
  have inverts := formed.inverts
  have positive := formed.positive
  have modulusLess : value key.modulus < WORD^key.len := by rw [← modulusLen]; exact value_lt modulusSmall
  obtain ⟨modulus0,moduli,moduli_eq⟩ := exists_cons_of_ne_nil (show key.modulus ≠ [] by
    intro empty; simp [empty] at positive)
  have lengths : moduli.length+1 = key.len := by rw [← modulusLen,moduli_eq,length_cons]
  obtain ⟨b0,bs,rfl⟩ := exists_cons_of_length_eq_add_one (bLen.trans lengths.symm)
  obtain ⟨result0,results,rfl⟩ := exists_cons_of_length_eq_add_one (resultLen.trans lengths.symm)
  rw [moduli_eq] at modulusSmall inverts
  obtain ⟨b0Small,bsSmall⟩ := digits_cons.mp bSmall
  obtain ⟨r0Small,resultsSmall⟩ := digits_cons.mp resultSmall
  obtain ⟨m0Small,moduliSmall⟩ := digits_cons.mp modulusSmall
  simp only [length_cons] at bLen resultLen
  have first : a*b0+result0 < WORD^2 := by
    have := accumulator_lt word_positive aSmall b0Small r0Small
    rwa [zero_add] at this
  have quotientSmall : (a*b0+result0)%WORD*key.n0inv%WORD < WORD := Nat.mod_lt _ word_positive
  have second : (a*b0+result0)%WORD*key.n0inv%WORD*modulus0+(a*b0+result0)%WORD < WORD^2 := by
    have := accumulator_lt word_positive quotientSmall m0Small (Nat.mod_lt (a*b0+result0) word_positive)
    rwa [zero_add] at this
  cases runs : mul_add_from a ((a*b0+result0)%WORD*key.n0inv%WORD) (a*b0+result0)
      ((a*b0+result0)%WORD*key.n0inv%WORD*modulus0+(a*b0+result0)%WORD) bs results moduli with
  | mk words ends =>
    obtain ⟨len,small,aEnd,bEnd,sum⟩ := mul_add_from_value aSmall quotientSmall (by omega) (by omega) bsSmall resultsSmall
      moduliSmall first second runs
    have total := round_sum inverts sum
    rw [← moduli_eq] at total
    have bound := round_lt resultLess aSmall bLess quotientSmall positive total
    have carry : ends.1/WORD+ends.2/WORD < WORD^2 := by
      have one := carry_lt aEnd
      have two := carry_lt bEnd
      have large : 2 ≤ WORD := by simp [WORD]
      nlinarith
    generalize topIs : ends.1/WORD+ends.2/WORD = top at *
    have array : Array key (words ++ [top%WORD]) :=
      ⟨by simp; omega,digits_append.mpr ⟨small,by simp [Nat.mod_lt _ word_positive]⟩⟩
    have snoc : value (words ++ [top%WORD]) =
        value words+WORD^bs.length*(top%WORD) := by
      rw [← len]
      exact ofDigits_snoc WORD words _
    have split := Nat.mod_add_div top WORD
    have radix : WORD^key.len = WORD^bs.length*WORD := by rw [← bLen,pow_succ]
    set whole := value words+WORD^bs.length*top with wholeIs
    have whole_eq : whole = value (words ++ [top%WORD])+
        WORD^key.len*(top/WORD) := by
      rw [snoc,radix,wholeIs]
      linear_combination WORD^bs.length*split.symm
    have step : montgomery_mul_add_step key (result0 :: results) a (b0 :: bs) =
        if top/WORD ≠ 0 then subtract_modulus key (words ++ [top%WORD])
        else words ++ [top%WORD] := by
      simp only [montgomery_mul_add_step,moduli_eq,Nat.mod_eq_of_lt first,Nat.mod_eq_of_lt second,runs,topIs,
        Nat.mod_eq_of_lt carry]
    have congruent : WORD*whole ≡ value (result0 :: results)+a*value (b0 :: bs) [MOD value key.modulus] := by
      rw [total]
      simp [Nat.ModEq]
    rw [step]
    by_cases fits : top/WORD = 0
    · rw [if_neg (by simp [fits])]
      rw [fits,mul_zero,add_zero] at whole_eq
      exact ⟨array,whole_eq ▸ congruent⟩
    rw [if_pos fits]
    have turn : WORD^key.len ≤ whole := by
      have := Nat.le_mul_of_pos_right (WORD^key.len) (Nat.pos_of_ne_zero fits)
      omega
    have same : whole%WORD^(words ++ [top%WORD]).length =
        value (words ++ [top%WORD]) := by
      rw [array.1,whole_eq,Nat.add_mul_mod_self_left,Nat.mod_eq_of_lt array.value_lt]
    obtain ⟨subLen,subSmall,exact_⟩ := subtract_modulus_exact (array.1.trans modulusLen.symm) same (by omega)
      (by rw [array.1]; exact bound)
    refine ⟨⟨subLen.trans array.1,subSmall⟩,?_⟩
    rw [← exact_,mul_add] at congruent
    refine Nat.ModEq.trans ?_ congruent
    simp [Nat.ModEq]

theorem montgomery_mul_value (formed : WellFormed key) {a b : List Nat} (aArray : Array key a) (bArray : Array key b) :
    Array key (montgomery_mul key a b) ∧
      WORD^key.len*value (montgomery_mul key a b) ≡ value a*value b [MOD value key.modulus] := by
  have rounds : ∀ (words result : List Nat), Digits WORD words → Array key result →
      Array key (words.foldl (fun result word => montgomery_mul_add_step key result word b) result) ∧
      WORD^words.length*value (words.foldl (fun result word => montgomery_mul_add_step key result word b) result) ≡
        value result+value words*value b [MOD value key.modulus] := by
    intro words
    induction words with
    | nil =>
      intro result _ array
      exact ⟨array,by simp [Nat.ModEq]⟩
    | cons word rest ih =>
      intro result small array
      obtain ⟨wordSmall,restSmall⟩ := digits_cons.mp small
      obtain ⟨nextArray,first⟩ := montgomery_mul_add_step_value formed array wordSmall bArray
      obtain ⟨outArray,later⟩ := ih _ restSmall nextArray
      refine ⟨outArray,?_⟩
      rw [value_cons]
      exact rounds_modEq first later
  have zeros : Array key (replicate key.len 0) :=
    ⟨by simp,fun word member => by rw [eq_of_mem_replicate member]; exact word_positive⟩
  have zero : value (replicate key.len 0) = 0 := Nat.ofDigits_replicate_zero
  obtain ⟨array,product⟩ := rounds a _ aArray.2 zeros
  rw [zero,zero_add,aArray.1] at product
  exact ⟨array,product⟩

theorem num_bits_from_eq {rounds bits exponent top : Nat} (enough : top < rounds) (least : 2^top ≤ exponent)
    (most : exponent < 2^(top+1)) : num_bits_from rounds bits exponent = some (bits+top) := by
  induction top generalizing rounds bits exponent with
  | zero =>
    obtain ⟨left,rfl⟩ : ∃ left, rounds = left+1 := ⟨rounds-1,by omega⟩
    rw [num_bits_from,if_pos (by omega)]
    rfl
  | succ top ih =>
    obtain ⟨left,rfl⟩ : ∃ left, rounds = left+1 := ⟨rounds-1,by omega⟩
    rw [pow_succ] at least most
    rw [num_bits_from,if_neg (by omega),ih (by omega) (by omega) (by omega)]
    congr 1
    omega

theorem num_public_exponent_bits_eq (some_bit : key.exponent ≠ 0) (small : key.exponent < 2^64) :
    num_public_exponent_bits key = some (1+key.exponent.log2) := by
  rw [num_public_exponent_bits,if_neg some_bit]
  have least := Nat.log2_self_le some_bit
  refine num_bits_from_eq ?_ least Nat.lt_log2_self
  exact (Nat.pow_lt_pow_iff_right (by norm_num)).mp (lt_of_le_of_lt least small)

theorem wrap_eq_zero {n : Int} : wrap n = 0 ↔ (2^32 : Int) ∣ n := by
  constructor
  · intro zero
    apply Int.dvd_of_emod_eq_zero
    have same : wrap n%2^32 = n%2^32 := Int.bmod_emod
    rw [← same,zero]
    rfl
  · rintro ⟨k,rfl⟩
    rw [mul_comm]
    exact wrap_vanishes k 0

theorem bit_set_iff (pos : Nat) : is_public_exponent_bit_set key pos ≠ 0 ↔ (key.exponent%2^32).testBit pos = true := by
  rw [is_public_exponent_bit_set,Nat.one_shiftLeft,Nat.and_two_pow,Nat.testBit_mod_two_pow,ne_eq,wrap_eq_zero]
  cases key.exponent.testBit pos with
  | false => simp
  | true =>
    by_cases low : pos < 32
    · simp only [Bool.toNat_true,one_mul,low,decide_true,Bool.and_self,iff_true]
      intro divides
      have := Nat.le_of_dvd (Nat.two_pow_pos pos) (by exact_mod_cast divides)
      exact absurd this (not_le.mpr (Nat.pow_lt_pow_right (by norm_num) low))
    · have divides : (2^32 : Int) ∣ ((true.toNat*2^pos : Nat) : Int) := by
        rw [Bool.toNat_true,one_mul]
        exact_mod_cast pow_dvd_pow 2 (show 32 ≤ pos by omega)
      simp only [divides,low,decide_false,Bool.false_and,not_true_eq_false,Bool.false_eq_true]

/-- The exponent as the loop sees it: the top bit, and of the bits below it those
    among the low 32. -/
def seen_exponent (exponent : Nat) : Nat := 2^exponent.log2+exponent%2^32%2^exponent.log2

theorem seen_exponent_eq {exponent : Nat} (some_bit : exponent ≠ 0) :
    seen_exponent exponent = exponent ↔ exponent-2^exponent.log2 < 2^32 := by
  have least := Nat.log2_self_le some_bit
  have most : exponent < 2^exponent.log2*2 := by
    rw [← pow_succ]
    exact Nat.lt_log2_self
  unfold seen_exponent
  rcases le_total 32 exponent.log2 with large | small
  · have multiple : (2^32 : Nat) ∣ 2^exponent.log2 := pow_dvd_pow 2 large
    rw [Nat.mod_eq_of_lt (show exponent%2^32 < 2^exponent.log2 by omega)]
    obtain ⟨k,same⟩ := multiple
    omega
  · have divides : 2^exponent.log2 ∣ 2^32 := pow_dvd_pow 2 small
    have bound := Nat.le_of_dvd (by norm_num) divides
    rw [Nat.mod_mod_of_dvd _ divides,Nat.mod_eq_sub_mod least,Nat.mod_eq_of_lt (by omega)]
    omega

theorem pow_from_scaled (formed : WellFormed key) (coprime : Nat.Coprime (value key.modulus) (WORD^key.len))
    {x : Nat} {a_scaled : List Nat} (scaledArray : Array key a_scaled)
    (scaled : Scaled (WORD^key.len) (value key.modulus) x (value a_scaled)) (j : Nat) {p : Nat} {acc : List Nat}
    (accArray : Array key acc) (power : Scaled (WORD^key.len) (value key.modulus) (x^p) (value acc)) :
    Array key (pow_from (pow_step key a_scaled) j acc) ∧ Scaled (WORD^key.len) (value key.modulus)
      (x^(p*2^j+key.exponent%2^32%2^(j+1)/2)) (value (pow_from (pow_step key a_scaled) j acc)) := by
  obtain ⟨low,lowIs,set_iff⟩ : ∃ low, low = key.exponent%2^32 ∧
      ∀ pos, is_public_exponent_bit_set key pos ≠ 0 ↔ low.testBit pos = true := ⟨_,rfl,bit_set_iff⟩
  rw [← lowIs]
  induction j generalizing p acc with
  | zero =>
    have zero : low%2^(0+1)/2 = 0 := by omega
    rw [zero,pow_zero,mul_one,add_zero]
    exact ⟨accArray,power⟩
  | succ j ih =>
    obtain ⟨squareArray,square⟩ := montgomery_mul_value formed accArray accArray
    have squared := power.mul coprime power square
    rw [← pow_add] at squared
    have half : low%2^(j+1+1)/2 = low%2^(j+1)/2+2^j*(low.testBit (j+1)).toNat := by
      rw [Nat.mod_pow_succ,Nat.toNat_testBit,pow_succ 2 j,mul_right_comm,Nat.add_mul_div_right _ _ (by norm_num)]
    rw [pow_from,pow_step,half]
    by_cases bit : low.testBit (j+1) = true
    · rw [if_pos ((set_iff _).mpr bit)]
      obtain ⟨productArray,product⟩ := montgomery_mul_value formed squareArray scaledArray
      have multiplied := squared.mul coprime scaled product
      rw [← pow_succ] at multiplied
      have same : p*2^(j+1)+(low%2^(j+1)/2+2^j*(low.testBit (j+1)).toNat) = (p+p+1)*2^j+low%2^(j+1)/2 := by
        rw [bit,Bool.toNat_true,pow_succ]
        ring
      rw [same]
      exact ih productArray multiplied
    · rw [if_neg (fun set => bit ((set_iff _).mp set))]
      have same : p*2^(j+1)+(low%2^(j+1)/2+2^j*(low.testBit (j+1)).toNat) = (p+p)*2^j+low%2^(j+1)/2 := by
        rw [Bool.eq_false_iff.mpr bit,Bool.toNat_false,pow_succ]
        ring
      rw [same]
      exact ih squareArray squared

theorem pow_product_value (formed : WellFormed key) (coprime : Nat.Coprime (value key.modulus) (WORD^key.len))
    (square : value key.rr ≡ WORD^key.len*WORD^key.len [MOD value key.modulus]) {val : List Nat} (valArray : Array key val)
    (odd : key.exponent%2 = 1) (large : 3 ≤ key.exponent) :
    Array key (pow_product key val (1+key.exponent.log2)) ∧
      value (pow_product key val (1+key.exponent.log2)) ≡ value val^seen_exponent key.exponent [MOD value key.modulus] := by
  obtain ⟨k,log⟩ : ∃ k, key.exponent.log2 = k+1 := by
    have one := (Nat.le_log2 (show key.exponent ≠ 0 by omega)).mpr (show 2^1 ≤ key.exponent by omega)
    exact ⟨key.exponent.log2-1,by omega⟩
  obtain ⟨scaledArray,first⟩ := montgomery_mul_value formed valArray formed.rr
  have scaled := scaled_of_square coprime square first
  have start : Scaled (WORD^key.len) (value key.modulus) (value val^1) (value (montgomery_mul key val key.rr)) := by
    rwa [pow_one]
  obtain ⟨accArray,power⟩ := pow_from_scaled formed coprime scaledArray scaled k scaledArray start
  obtain ⟨tmpArray,squares⟩ := montgomery_mul_value formed accArray accArray
  obtain ⟨resultArray,product⟩ := montgomery_mul_value formed tmpArray valArray
  have result := (power.mul coprime power squares).unscale coprime product
  -- Bit 0 is set and comes in with the last product.
  have exponent : 1*2^k+key.exponent%2^32%2^(k+1)/2+(1*2^k+key.exponent%2^32%2^(k+1)/2)+1 =
      seen_exponent key.exponent := by
    have low : key.exponent%2^32%2^(k+1)%2 = 1 := by
      rw [Nat.mod_mod_of_dvd _ (dvd_pow_self 2 (by omega)),Nat.mod_mod_of_dvd _ (dvd_pow_self 2 (by omega)),odd]
    rw [seen_exponent,log,pow_succ]
    rw [pow_succ] at low
    omega
  rw [← pow_add,← pow_succ,exponent] at result
  rw [pow_product,log,show 1+(k+1)-2 = k by omega]
  exact ⟨resultArray,result⟩

theorem pow_result_value (formed : WellFormed key) (coprime : Nat.Coprime (value key.modulus) (WORD^key.len))
    (top : WORD^key.len ≤ 2*value key.modulus)
    (square : value key.rr ≡ WORD^key.len*WORD^key.len [MOD value key.modulus]) {val : List Nat} (valArray : Array key val)
    (odd : key.exponent%2 = 1) (large : 3 ≤ key.exponent) :
    Array key (pow_result key val (1+key.exponent.log2)) ∧
      value (pow_result key val (1+key.exponent.log2)) = value val^seen_exponent key.exponent%value key.modulus := by
  obtain ⟨array,result⟩ := pow_product_value formed coprime square valArray odd large
  have less := array.value_lt
  have length := array.1.trans formed.modulus.1.symm
  have reduced {x : Nat} (small : x < value key.modulus)
      (same : x ≡ value val^seen_exponent key.exponent [MOD value key.modulus]) :
      x = value val^seen_exponent key.exponent%value key.modulus := by
    rw [← Nat.mod_eq_of_lt small]
    exact same
  rw [pow_result]
  generalize pow_product key val (1+key.exponent.log2) = last at *
  have compare : greater_equal_modulus key last = decide (value key.modulus ≤ value last) :=
    greater_equal_value length array.2 formed.modulus.2
  rw [compare]
  by_cases exceeds : value key.modulus ≤ value last
  · rw [if_pos (by simpa using exceeds)]
    have same : value last%WORD^last.length = value last := Nat.mod_eq_of_lt (value_lt array.2)
    obtain ⟨len,small,exact_⟩ := subtract_modulus_exact length same exceeds (by rw [array.1]; omega)
    refine ⟨⟨len.trans array.1,small⟩,reduced (by omega) ?_⟩
    refine Nat.ModEq.trans ?_ result
    rw [← exact_]
    simp [Nat.ModEq]
  · rw [if_neg (by simpa using exceeds)]
    exact ⟨array,reduced (by omega) result⟩

theorem word_octets (len : Nat) : 256^(4*len) = WORD^len := by
  rw [pow_mul]
  rfl

theorem convert_succ (src : List UInt8) (len : Nat) :
    rsa_convert_big_endian src (len+1) = rsa_convert_big_endian (src.drop 4) len ++ [be32 src 0] := by
  unfold rsa_convert_big_endian
  rw [range_succ,map_append]
  congr 1
  · refine map_congr_left fun i member => ?_
    have less := mem_range.mp member
    rw [be32,be32,drop_drop]
    congr 3
    omega
  · simp

theorem convert_value {src : List UInt8} {len : Nat} (length : src.length = 4*len) :
    (rsa_convert_big_endian src len).length = len ∧ Digits WORD (rsa_convert_big_endian src len) ∧
      value (rsa_convert_big_endian src len) = os2ip src := by
  induction len generalizing src with
  | zero =>
    obtain rfl := length_eq_zero_iff.mp length
    simp [rsa_convert_big_endian]
  | succ len ih =>
    have rest : (src.drop 4).length = 4*len := by rw [length_drop]; omega
    obtain ⟨sameLength,small,sameValue⟩ := ih rest
    have front : (src.take 4).length = 4 := by rw [length_take]; omega
    have word : be32 src 0 < WORD := by
      have := os2ip_lt (src.take 4)
      rw [front] at this
      exact this
    rw [convert_succ]
    refine ⟨by simp [sameLength],digits_append.mpr ⟨small,by simpa using word⟩,?_⟩
    have split : os2ip src = os2ip (src.take 4)*256^(src.drop 4).length+os2ip (src.drop 4) := by
      rw [← os2ip_append,take_append_drop]
    rw [value,ofDigits_snoc,sameLength,split,rest,word_octets,← sameValue,be32,drop_zero]
    unfold value
    ring

theorem octets_value (small : Digits WORD words) :
    (words.reverse.flatMap (i2osp 4)).length = 4*words.length ∧ os2ip (words.reverse.flatMap (i2osp 4)) = value words := by
  induction words with
  | nil => simp
  | cons word rest ih =>
    obtain ⟨wordSmall,restSmall⟩ := digits_cons.mp small
    obtain ⟨sameLength,sameValue⟩ := ih restSmall
    rw [reverse_cons,flatMap_append,flatMap_singleton]
    refine ⟨by rw [length_append,sameLength,i2osp_length,length_cons]; ring,?_⟩
    rw [os2ip_append,sameValue,i2osp_length,os2ip_i2osp (show word < 256^4 from wordSmall),value_cons]
    have base : 256^4 = WORD := rfl
    rw [base]
    ring

/-- The properties of a key of so many bits with the modulus `n` and the exponent
    `e`: the modulus is odd and has its top bit set, `n0inv` and `rr` belong to it. -/
structure Suits (prop : KeyProp) (num_bits n e : Nat) : Prop where
  bits : prop.num_bits = num_bits
  words : 32 ∣ num_bits
  least : RSA_MIN_KEY_BITS ≤ num_bits
  most : num_bits ≤ RSA_MAX_KEY_BITS
  modulus : ∃ octets, prop.modulus = some octets ∧ octets.length = num_bits/8 ∧ os2ip octets = n
  odd : n%2 = 1
  top : 2^(num_bits-1) ≤ n
  n0inv : (prop.n0inv*n+1)%2^32 = 0
  rr : ∃ octets, prop.rr = some octets ∧ octets.length = num_bits/8 ∧ os2ip octets = 2^(2*num_bits)%n
  exponent : (∃ octets, prop.public_exponent = some octets ∧ octets.length = 8 ∧ os2ip octets = e) ∨
    prop.public_exponent = none ∧ e = RSA_DEFAULT_PUBEXP

/-- The call returns 0, and `out` is the encoding of the power modulo `n` in as
    many octets as the key has. -/
def Computes (prop : KeyProp) (num_bits n e : Nat) (sig : List UInt8) : Prop :=
  ∃ out, rsa_mod_exp_sw sig (some prop) = some (.ok out) ∧ out.length = num_bits/8 ∧ os2ip out = os2ip sig^e%n

/-- The call returns the power of the exponent that is seen. -/
theorem rsa_mod_exp_sw_seen {prop : KeyProp} {num_bits n e : Nat} (suits : Suits prop num_bits n e) (odd : e%2 = 1)
    (large : 3 ≤ e) {sig : List UInt8} (length : sig.length = num_bits/8) :
    ∃ out, rsa_mod_exp_sw sig (some prop) = some (.ok out) ∧ out.length = num_bits/8 ∧
      os2ip out = os2ip sig^seen_exponent e%n := by
  obtain ⟨len,words⟩ := suits.words
  have least := suits.least
  have most := suits.most
  unfold RSA_MIN_KEY_BITS at least
  unfold RSA_MAX_KEY_BITS at most
  have octets : num_bits/8 = 4*len := by omega
  rw [octets] at length ⊢
  obtain ⟨modulus,modulusIs,modulusLen,modulusValue⟩ := suits.modulus
  obtain ⟨rr,rrIs,rrLen,rrValue⟩ := suits.rr
  rw [octets] at modulusLen rrLen
  have exponent : (prop.public_exponent.elim RSA_DEFAULT_PUBEXP fun octets => os2ip (octets.take 8)) = e := by
    rcases suits.exponent with ⟨octets,is,eight,same⟩ | ⟨is,same⟩
    · rw [is,← same]
      simp [← eight]
    · rw [is,same]
      rfl
  have small : e < 2^64 := by
    rcases suits.exponent with ⟨octets,_,eight,same⟩ | ⟨_,same⟩
    · have := os2ip_lt octets
      rw [eight,same] at this
      exact this
    · rw [same]
      norm_num [RSA_DEFAULT_PUBEXP]
  obtain ⟨modulusLength,modulusSmall,modulusIsN⟩ := convert_value modulusLen
  obtain ⟨rrLength,rrSmall,rrIsSquare⟩ := convert_value rrLen
  obtain ⟨valLength,valSmall,valIsSig⟩ := convert_value length
  set key : RsaPublicKey := ⟨len,prop.n0inv,rsa_convert_big_endian modulus len,rsa_convert_big_endian rr len,e⟩ with keyIs
  have isN : value key.modulus = n := modulusIsN.trans modulusValue
  have radix : WORD^key.len = 2^num_bits := by rw [words,pow_mul]; rfl
  have formed : WellFormed key := by
    have := suits.odd
    exact ⟨⟨modulusLength,modulusSmall⟩,⟨rrLength,rrSmall⟩,by rw [isN]; exact suits.n0inv,by omega⟩
  have coprime : Nat.Coprime (value key.modulus) (WORD^key.len) := by
    rw [isN,radix]
    exact Nat.Coprime.pow_right _ (Nat.coprime_two_right.mpr (Nat.odd_iff.mpr suits.odd))
  have top : WORD^key.len ≤ 2*value key.modulus := by
    have := suits.top
    rw [isN,radix,show num_bits = num_bits-1+1 by omega,pow_succ]
    omega
  have square : value key.rr ≡ WORD^key.len*WORD^key.len [MOD value key.modulus] := by
    rw [isN,radix,← pow_add,← two_mul]
    have same : value key.rr = 2^(2*num_bits)%n := rrIsSquare.trans rrValue
    rw [same]
    exact Nat.mod_modEq _ _
  obtain ⟨⟨resultLen,resultSmall⟩,result⟩ := pow_result_value formed coprime top square
    (show Array key (rsa_convert_big_endian sig len) from ⟨valLength,valSmall⟩) odd large
  rw [valIsSig,isN] at result
  obtain ⟨outLength,outValue⟩ := octets_value resultSmall
  rw [resultLen] at outLength
  refine ⟨(pow_result key (rsa_convert_big_endian sig len) (1+e.log2)).reverse.flatMap (i2osp 4),?_,outLength,
    outValue.trans result⟩
  have bits : (prop.num_bits%2^32).toNat = num_bits := by rw [suits.bits]; omega
  have known : num_public_exponent_bits key = some (1+e.log2) := num_public_exponent_bits_eq (by dsimp [key]; omega) small
  have long : ¬ 1+e.log2 < 2 := by
    have := (Nat.le_log2 (show e ≠ 0 by omega)).mpr (show 2^1 ≤ e by omega)
    omega
  have lowest : is_public_exponent_bit_set key 0 ≠ 0 := by
    rw [bit_set_iff,Nat.testBit_zero,Nat.mod_mod_of_dvd _ (by norm_num)]
    simpa using odd
  have rest : sig.drop (4*key.len) = [] := drop_eq_nil_of_le (by rw [length])
  have runs : pow_mod key sig = .ok ((pow_result key (rsa_convert_big_endian sig len) (1+e.log2)).reverse.flatMap (i2osp 4)) := by
    rw [pow_mod,if_neg (by dsimp [key]; unfold RSA_MAX_KEY_BITS; omega),known]
    dsimp only
    rw [if_neg long,if_neg lowest,rest,append_nil]
  rw [← runs]
  simp only [rsa_mod_exp_sw,modulusIs,rrIs,bits,exponent]
  rw [if_neg (by omega),if_neg (by unfold RSA_MAX_KEY_BITS RSA_MIN_KEY_BITS; omega),if_neg (by omega),
    show num_bits/32 = len by omega]

theorem pow_mod_square (m k : Nat) : (1+m)^k ≡ 1+k*m [MOD m*m] := by
  induction k with
  | zero => simp [Nat.ModEq]
  | succ k ih =>
    calc (1+m)^(k+1) = (1+m)^k*(1+m) := pow_succ _ _
      _ ≡ (1+k*m)*(1+m) [MOD m*m] := ih.mul_right _
      _ = 1+(k+1)*m+m*m*k := by ring
      _ ≡ 1+(k+1)*m [MOD m*m] := by simp [Nat.ModEq]

theorem pow_mod_square_apart {m j k : Nat} (jSmall : j < m) (kSmall : k < m)
    (same : (1+m)^j ≡ (1+m)^k [MOD m*m]) : j = k := by
  have even : 1+j*m ≡ 1+k*m [MOD m*m] := (pow_mod_square m j).symm.trans (same.trans (pow_mod_square m k))
  have multiples : m*j ≡ m*k [MOD m*m] := by
    have := Nat.ModEq.add_left_cancel' 1 even
    rwa [mul_comm j,mul_comm k] at this
  exact ((Nat.ModEq.mul_left_cancel' (by omega) multiples).eq_of_lt_of_lt jSmall kSmall)

def square_root : Nat := 2^1024-1

/-- A key of 2048 bits whose modulus is a square. -/
def square_key (e : Nat) : KeyProp :=
  ⟨some (i2osp 256 (2^(2*2048)%(square_root*square_root))),some (i2osp 256 (square_root*square_root)),some (i2osp 8 e),
    2^32-1,2048⟩

def square_sig : List UInt8 := i2osp 256 (1+square_root)

theorem square_sig_length : square_sig.length = 2048/8 := i2osp_length 256 _

theorem square_sig_value : os2ip square_sig = 1+square_root := os2ip_i2osp (by decide +kernel)

theorem square_key_suits (small : e < 2^64) : Suits (square_key e) 2048 (square_root*square_root) e := by
  have modulus : os2ip (i2osp 256 (square_root*square_root)) = square_root*square_root := os2ip_i2osp (by decide +kernel)
  have rr : os2ip (i2osp 256 (2^(2*2048)%(square_root*square_root))) = 2^(2*2048)%(square_root*square_root) :=
    os2ip_i2osp (by decide +kernel)
  have inverts : ((2^32-1)*(square_root*square_root)+1)%2^32 = 0 := by decide +kernel
  refine ⟨by simp [square_key],⟨64,by norm_num⟩,le_rfl,by simp [RSA_MAX_KEY_BITS],⟨_,rfl,i2osp_length 256 _,modulus⟩,
    by decide +kernel,by decide +kernel,inverts,⟨_,rfl,i2osp_length 256 _,rr⟩,
    .inl ⟨_,rfl,i2osp_length 8 _,os2ip_i2osp small⟩⟩

theorem seen_exponent_lt (some_bit : e ≠ 0) (small : e < 2^64) : seen_exponent e < 2^64 := by
  have least := Nat.log2_self_le some_bit
  have log : e.log2 < 64 := (Nat.pow_lt_pow_iff_right (by norm_num)).mp (lt_of_le_of_lt least small)
  have double : 2^(e.log2+1) ≤ 2^64 := Nat.pow_le_pow_right (by norm_num) (by omega)
  have low : e%2^32%2^e.log2 < 2^e.log2 := Nat.mod_lt _ (Nat.two_pow_pos _)
  rw [pow_succ] at double
  unfold seen_exponent
  omega

theorem computes_iff {prop : KeyProp} {num_bits n e : Nat} (suits : Suits prop num_bits n e) (odd : e%2 = 1)
    (large : 3 ≤ e) {sig : List UInt8} (length : sig.length = num_bits/8) :
    Computes prop num_bits n e sig ↔ os2ip sig^e ≡ os2ip sig^seen_exponent e [MOD n] := by
  obtain ⟨seen,runs,seenLength,seenValue⟩ := rsa_mod_exp_sw_seen suits odd large length
  constructor
  · rintro ⟨out,ends,_,outValue⟩
    rw [runs] at ends
    cases ends
    exact outValue.symm.trans seenValue
  · intro same
    exact ⟨seen,runs,seenLength,seenValue.trans same.symm⟩

theorem square_key_seen (odd : e%2 = 1) (large : 3 ≤ e) (small : e < 2^64)
    (computes : Computes (square_key e) 2048 (square_root*square_root) e square_sig) : seen_exponent e = e := by
  have same := (computes_iff (square_key_suits small) odd large square_sig_length).mp computes
  rw [square_sig_value] at same
  have wide : 2^64 < square_root := by decide +kernel
  have seen := seen_exponent_lt (show e ≠ 0 by omega) small
  exact (pow_mod_square_apart (by omega) (by omega) same).symm

/-- For each key and signature the call computes the power exactly when the bits
    that are not seen make no difference; for all of them together exactly when
    the exponent has no bit above the low 32 but its top bit. -/
theorem rsa_mod_exp_sw_iff (e : Nat) (odd : e%2 = 1) (large : 3 ≤ e) (small : e < 2^64) :
    (∀ prop num_bits n sig, Suits prop num_bits n e → sig.length = num_bits/8 → os2ip sig < n →
      (Computes prop num_bits n e sig ↔ os2ip sig^e ≡ os2ip sig^seen_exponent e [MOD n])) ∧
    ((∀ prop num_bits n sig, Suits prop num_bits n e → sig.length = num_bits/8 → os2ip sig < n →
      Computes prop num_bits n e sig) ↔ e-2^e.log2 < 2^32) := by
  have each (prop : KeyProp) (num_bits n : Nat) (sig : List UInt8) (suits : Suits prop num_bits n e)
      (length : sig.length = num_bits/8) := computes_iff suits odd large length
  refine ⟨fun prop num_bits n sig suits length _ => each prop num_bits n sig suits length,?_⟩
  rw [← seen_exponent_eq (show e ≠ 0 by omega)]
  constructor
  · intro all
    refine square_key_seen odd large small (all _ _ _ _ (square_key_suits small) square_sig_length ?_)
    rw [square_sig_value]
    decide +kernel
  · intro seen prop num_bits n sig suits length _
    refine (each prop num_bits n sig suits length).mpr ?_
    rw [seen]

theorem rsa_mod_exp_sw_f4 :
    Computes (square_key RSA_DEFAULT_PUBEXP) 2048 (square_root*square_root) RSA_DEFAULT_PUBEXP square_sig := by
  have below : RSA_DEFAULT_PUBEXP < 2^64 := by decide
  refine (rsa_mod_exp_sw_iff RSA_DEFAULT_PUBEXP rfl (by decide) below).2.mpr (by decide +kernel) _ _ _ _
    (square_key_suits below) square_sig_length ?_
  rw [square_sig_value]
  decide +kernel

/-- The exponent 3*2^32+1: bit 32 lies below the top bit and is not seen. -/
theorem rsa_mod_exp_sw_drops_bit :
    Suits (square_key (3*2^32+1)) 2048 (square_root*square_root) (3*2^32+1) ∧ square_sig.length = 2048/8 ∧
      os2ip square_sig < square_root*square_root ∧
      ¬ Computes (square_key (3*2^32+1)) 2048 (square_root*square_root) (3*2^32+1) square_sig := by
  refine ⟨square_key_suits (by decide),square_sig_length,?_,fun computes => ?_⟩
  · rw [square_sig_value]
    decide +kernel
  · have seen := square_key_seen (by decide) (by decide) (by decide) computes
    exact absurd seen (by decide +kernel)

end UBoot.RsaModExp
