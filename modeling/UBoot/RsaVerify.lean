import UBoot.RsaModExp

/-!
The check of an RSA signature with PKCS#1 v1.5 padding of
`lib/rsa/rsa-verify.c`. The result of the exponentiation is as long as the
signature, which is as long as the key; the length that is checked comes from
the algorithm that the signature names. A byte that is read outside the result
has no value.
-/
namespace UBoot.RsaVerify
open UBoot.Octets UBoot.RsaModExp List Option

def EIO : Int := 5
def EACCES : Int := 13

def RSA_MAX_SIG_BITS : Nat := 4096

structure ChecksumAlgo where
  name : String
  checksum_len : Nat
  der_prefix : List UInt8

structure CryptoAlgo where
  name : String
  key_len : Nat

def sha256 : ChecksumAlgo :=
  ⟨"sha256",32,[0x30,0x31,0x30,0x0d,0x06,0x09,0x60,0x86,0x48,0x01,0x65,0x03,0x04,0x02,0x01,0x05,0x00,0x04,0x20]⟩

def checksum_algos : List ChecksumAlgo :=
  [⟨"sha1",20,[0x30,0x21,0x30,0x09,0x06,0x05,0x2b,0x0e,0x03,0x02,0x1a,0x05,0x00,0x04,0x14]⟩,
   sha256,
   ⟨"sha384",48,[0x30,0x41,0x30,0x0d,0x06,0x09,0x60,0x86,0x48,0x01,0x65,0x03,0x04,0x02,0x02,0x05,0x00,0x04,0x30]⟩,
   ⟨"sha512",64,[0x30,0x51,0x30,0x0d,0x06,0x09,0x60,0x86,0x48,0x01,0x65,0x03,0x04,0x02,0x03,0x05,0x00,0x04,0x40]⟩]

def rsa2048 : CryptoAlgo := ⟨"rsa2048",2048/8⟩

/-- The algorithms whose signatures `rsa_verify` checks. -/
def cryptos : List CryptoAlgo := [rsa2048,⟨"rsa3072",3072/8⟩,⟨"rsa4096",4096/8⟩]

def ChecksumAlgo.der_len (algo : ChecksumAlgo) : Nat := algo.der_prefix.length

/-- The difference at the first position where the bytes differ. No value when
    one of them ends before that and before `count`. -/
def memcmp : List UInt8 → List UInt8 → Nat → Option (BitVec 32)
  | _, _, 0 => some 0
  | x :: xs, y :: ys, count+1 =>
    if x ≠ y then some (BitVec.ofNat 32 x.toNat-BitVec.ofNat 32 y.toNat) else memcmp xs ys count
  | _, _, _+1 => none

/-- The bytes from a pointer into the buffer on, none where it points outside. -/
def pointer (buf : List UInt8) (off : Int) : List UInt8 := if off < 0 then [] else buf.drop off.toNat

def deref (buf : List UInt8) (off : Int) : Option (BitVec 32) :=
  (pointer buf off).head?.map fun byte => BitVec.ofNat 32 byte.toNat

def size_t (n : Int) : Nat := (n%2^64).toNat

def rsa_verify_padding (msg : List UInt8) (pad_len : Int) (algo : ChecksumAlgo) : Option (BitVec 32) := do
  let first ← deref msg 0
  let second ← deref msg 1
  let ff_len := pad_len-algo.der_len-3
  let third ← deref msg 2
  let filled ← memcmp (pointer msg 2) (pointer msg 3) (size_t (ff_len-1))
  let last ← deref msg (2+ff_len)
  let der ← memcmp (pointer msg (3+ff_len)) algo.der_prefix algo.der_len
  some (first ||| (second ^^^ 0x01) ||| (third ^^^ 0xff) ||| filled ||| last ||| der)

def padding_pkcs_15_verify (checksum : ChecksumAlgo) (msg : List UInt8) (msg_len : Int) (hash : List UInt8) : Option Int := do
  let pad_len := msg_len-checksum.checksum_len
  let ret ← rsa_verify_padding msg pad_len checksum
  if ret ≠ 0 then some (-EINVAL)
  else
    let differ ← memcmp (pointer msg pad_len) hash (size_t (msg_len-pad_len))
    if differ ≠ 0 then some (-EACCES) else some 0

/-- The return code. `rsa_mod_exp` gives its own and the contents of `buf` then;
    it is `none` where no device for it is found. -/
def rsa_verify_key (rsa_mod_exp : Option (List UInt8 → KeyProp → Int × List UInt8))
    (checksum : Option ChecksumAlgo) (padding : Option (ChecksumAlgo → List UInt8 → Int → List UInt8 → Option Int))
    (prop : Option KeyProp) (sig hash : Option (List UInt8)) (key_len : Nat) : Option Int :=
  match prop, sig, hash, checksum, padding with
  | some prop, some sig, some hash, some checksum, some padding =>
    if sig.length ≠ ((prop.num_bits.tdiv 8)%2^32).toNat then some (-EINVAL)
    else if sig.length > RSA_MAX_SIG_BITS/8 then some (-EINVAL)
    else
      match rsa_mod_exp with
      | none => some (-EINVAL)
      | some rsa_mod_exp =>
        let result := rsa_mod_exp sig prop
        if result.1 ≠ 0 then some result.1
        else
          match padding checksum result.2 key_len hash with
          | none => none
          | some ret => if ret ≠ 0 then some ret else some 0
  | _, _, _, _, _ => some (- EIO)

theorem byte_value_injective {x y : UInt8} (same : BitVec.ofNat 32 x.toNat = BitVec.ofNat 32 y.toNat) : x = y := by
  have numbers := congrArg BitVec.toNat same
  have xSmall := x.toNat_lt
  have ySmall := y.toNat_lt
  simp only [BitVec.toNat_ofNat] at numbers
  rw [Nat.mod_eq_of_lt (by omega),Nat.mod_eq_of_lt (by omega)] at numbers
  exact UInt8.toNat_inj.mp numbers

theorem byte_difference {x y : UInt8} (differ : x ≠ y) : ¬ BitVec.ofNat 32 x.toNat-BitVec.ofNat 32 y.toNat = 0#32 := by
  intro zero
  refine differ (byte_value_injective ?_)
  rw [← BitVec.sub_add_cancel (BitVec.ofNat 32 x.toNat) (BitVec.ofNat 32 y.toNat),zero]
  exact BitVec.zero_add _

/-- A comparison with enough bytes on both sides. -/
theorem memcmp_within {xs ys : List UInt8} {count : Nat} (left : count ≤ xs.length) (right : count ≤ ys.length) :
    ∃ r, memcmp xs ys count = some r ∧ (r = 0 ↔ xs.take count = ys.take count) := by
  induction count generalizing xs ys with
  | zero => exact ⟨0,by simp [memcmp],by simp⟩
  | succ count ih =>
    cases xs with
    | nil => simp at left
    | cons x xs =>
      cases ys with
      | nil => simp at right
      | cons y ys =>
        simp only [length_cons,Nat.add_le_add_iff_right] at left right
        by_cases differ : x ≠ y
        · refine ⟨_,by rw [memcmp,if_pos differ],?_⟩
          simp [byte_difference differ,differ]
        · obtain rfl := not_not.mp differ
          obtain ⟨r,runs,zero⟩ := ih left right
          exact ⟨r,by rw [memcmp,if_neg differ,runs],by simpa using zero⟩

theorem memcmp_all (xs ys : List UInt8) :
    (memcmp xs ys ys.length = none ↔ xs <+: ys ∧ xs.length < ys.length) ∧
      ∀ r, memcmp xs ys ys.length = some r → (r = 0 ↔ ys <+: xs) := by
  induction xs generalizing ys with
  | nil =>
    cases ys with
    | nil | cons y ys => simp [memcmp]
  | cons x xs ih =>
    cases ys with
    | nil => simp [memcmp]
    | cons y ys =>
      by_cases differ : x ≠ y
      · rw [length_cons,memcmp,if_pos differ]
        refine ⟨by simp [cons_prefix_cons,differ],fun r result => ?_⟩
        cases result
        simp [byte_difference differ,cons_prefix_cons,Ne.symm differ]
      · obtain rfl := not_not.mp differ
        rw [length_cons,memcmp,if_neg differ]
        obtain ⟨leaves,result⟩ := ih ys
        refine ⟨by rw [leaves,cons_prefix_cons]; simp,fun r same => ?_⟩
        rw [result r same,cons_prefix_cons]
        simp

theorem memcmp_shifted (x : UInt8) (xs : List UInt8) {count : Nat} (enough : count ≤ xs.length) :
    ∃ r, memcmp (x :: xs) xs count = some r ∧ (r = 0 ↔ xs.take count = replicate count x) := by
  induction count generalizing x xs with
  | zero => exact ⟨0,by simp [memcmp],by simp⟩
  | succ count ih =>
    cases xs with
    | nil => simp at enough
    | cons y ys =>
      simp only [length_cons,Nat.add_le_add_iff_right] at enough
      by_cases differ : x ≠ y
      · refine ⟨_,by rw [memcmp,if_pos differ],?_⟩
        simp [byte_difference differ,replicate_succ,Ne.symm differ]
      · obtain rfl := not_not.mp differ
        obtain ⟨r,runs,zero⟩ := ih x ys enough
        exact ⟨r,by rw [memcmp,if_neg differ,runs],by simpa [replicate_succ] using zero⟩

/-- What stands before the prefix: so many bytes of ones between the type and a
    zero. -/
def head (ff_len : Nat) : List UInt8 := [0x00,0x01] ++ List.replicate ff_len 0xff ++ [0x00]

@[simp] theorem head_length (ff_len : Nat) : (head ff_len).length = 3+ff_len := by
  simp [head]
  omega

theorem pointer_eq (buf : List UInt8) (off : Nat) : pointer buf off = buf.drop off := by
  simp [pointer]

theorem deref_eq (buf : List UInt8) (off : Nat) :
    deref buf off = (buf.drop off).head?.map fun byte => BitVec.ofNat 32 byte.toNat := by
  rw [deref,pointer_eq]

theorem size_t_eq {n : Nat} (small : n < 2^64) : size_t n = n := by
  unfold size_t
  omega

theorem three_bytes {msg : List UInt8} (long : 3 ≤ msg.length) : ∃ a b c rest, msg = a :: b :: c :: rest := by
  obtain ⟨a,first,rfl⟩ := exists_cons_of_length_pos (show 0 < msg.length by omega)
  obtain ⟨b,second,rfl⟩ := exists_cons_of_length_pos (show 0 < first.length by simp at long; omega)
  obtain ⟨c,rest,rfl⟩ := exists_cons_of_length_pos (show 0 < second.length by simp at long; omega)
  exact ⟨a,b,c,rest,rfl⟩

theorem verify_padding_eq {msg : List UInt8} {algo : ChecksumAlgo} {ff_len : Nat} (some_ff : 1 ≤ ff_len)
    (long : 3+ff_len ≤ msg.length) (short : msg.length < 2^64) :
    ∃ ret, rsa_verify_padding msg (algo.der_len+3+ff_len : Nat) algo =
        (memcmp (msg.drop (3+ff_len)) algo.der_prefix algo.der_len).map (ret ||| ·) ∧
      (ret = 0 ↔ msg.take (3+ff_len) = head ff_len) := by
  obtain ⟨more,rfl⟩ : ∃ more, ff_len = more+1 := ⟨ff_len-1,by omega⟩
  obtain ⟨a,b,c,rest,rfl⟩ := three_bytes (show 3 ≤ msg.length by omega)
  -- The rest of the padding is compared with itself, so it is all like its first byte.
  simp only [length_cons] at long short
  obtain ⟨filled,runs,zero⟩ := memcmp_shifted c rest (show more ≤ rest.length by omega)
  have inside : more < rest.length := by omega
  have last : deref (a :: b :: c :: rest) ((2+(more+1) : Nat) : Int) = some (BitVec.ofNat 32 rest[more].toNat) := by
    rw [deref_eq,show 2+(more+1) = more+3 by omega]
    simp [head?_drop,getElem?_eq_getElem inside]
  have length : size_t (((algo.der_len+3+(more+1) : Nat) : Int)-algo.der_len-3-1) = more := by
    rw [show ((algo.der_len+3+(more+1) : Nat) : Int)-algo.der_len-3-1 = (more : Nat) by push_cast; ring]
    exact size_t_eq (by omega)
  have behind : (2 : Int)+(((algo.der_len+3+(more+1) : Nat) : Int)-algo.der_len-3) = ((2+(more+1) : Nat) : Int) := by
    push_cast
    ring
  have der : (3 : Int)+(((algo.der_len+3+(more+1) : Nat) : Int)-algo.der_len-3) = ((3+(more+1) : Nat) : Int) := by
    push_cast
    ring
  refine ⟨BitVec.ofNat 32 a.toNat ||| (BitVec.ofNat 32 b.toNat ^^^ 0x01) ||| (BitVec.ofNat 32 c.toNat ^^^ 0xff) |||
    filled ||| BitVec.ofNat 32 rest[more].toNat,?_,?_⟩
  · have first : deref (a :: b :: c :: rest) 0 = some (BitVec.ofNat 32 a.toNat) := rfl
    have second : deref (a :: b :: c :: rest) 1 = some (BitVec.ofNat 32 b.toNat) := rfl
    have third : deref (a :: b :: c :: rest) 2 = some (BitVec.ofNat 32 c.toNat) := rfl
    have two : pointer (a :: b :: c :: rest) 2 = c :: rest := rfl
    have three : pointer (a :: b :: c :: rest) 3 = rest := rfl
    simp only [rsa_verify_padding,first,second,third,two,three,length,runs,behind,last,der,pointer_eq,
      bind_eq_bind,bind_some]
    cases memcmp ((a :: b :: c :: rest).drop (3+(more+1))) algo.der_prefix algo.der_len <;> rfl
  have split : rest.take (more+1) = rest.take more ++ [rest[more]] := take_succ_eq_append_getElem inside
  have heads : (a :: b :: c :: rest).take (3+(more+1)) = a :: b :: c :: (rest.take more ++ [rest[more]]) := by
    rw [← split,show 3+(more+1) = more+1+1+1+1 by omega]
    rfl
  have shape : head (more+1) = 0x00 :: 0x01 :: 0xff :: (replicate more 0xff ++ [0x00]) := by
    simp [head,replicate_succ]
  have constant (x : UInt8) {k : Nat} (small : k < 256) : BitVec.ofNat 32 x.toNat = BitVec.ofNat 32 k ↔ x = UInt8.ofNat k := by
    constructor
    · intro same
      refine byte_value_injective ?_
      rw [same,UInt8.toNat_ofNat',Nat.mod_eq_of_lt small]
    · rintro rfl
      rw [UInt8.toNat_ofNat',Nat.mod_eq_of_lt small]
  have value0 := constant a (show 0 < 256 by norm_num)
  have value1 := constant b (show 1 < 256 by norm_num)
  have value2 := constant c (show 255 < 256 by norm_num)
  have value3 := constant rest[more] (show 0 < 256 by norm_num)
  rw [heads,shape]
  simp only [BitVec.or_eq_zero_iff,BitVec.xor_eq_zero_iff,BitVec.ofNat_eq_ofNat,value0,value1,value2,value3,
    List.cons.injEq]
  constructor
  · rintro ⟨⟨⟨⟨rfl,rfl⟩,rfl⟩,same⟩,ends⟩
    exact ⟨rfl,rfl,rfl,by rw [zero.mp same,ends]; rfl⟩
  · rintro ⟨rfl,rfl,rfl,same⟩
    obtain ⟨ones,ends⟩ := append_inj' same rfl
    exact ⟨⟨⟨⟨rfl,rfl⟩,rfl⟩,zero.mpr ones⟩,by simpa using ends⟩

theorem verify_padding_outside {msg : List UInt8} {algo : ChecksumAlgo} {ff_len : Nat} (ends : msg.length < 3+ff_len) :
    rsa_verify_padding msg (algo.der_len+3+ff_len : Nat) algo = none := by
  have behind : (2 : Int)+(((algo.der_len+3+ff_len : Nat) : Int)-algo.der_len-3) = ((2+ff_len : Nat) : Int) := by
    push_cast
    ring
  have last : deref msg ((2+ff_len : Nat) : Int) = none := by
    rw [deref_eq,drop_eq_nil_of_le (by omega)]
    rfl
  simp only [rsa_verify_padding,behind,last,bind_eq_bind,bind_none]
  cases deref msg 0 <;> cases deref msg 1 <;> cases deref msg 2 <;> simp

/-- What has to stand in the buffer: the padding, the prefix and the hash. -/
def encoding (checksum : ChecksumAlgo) (hash : List UInt8) (ff_len : Nat) : List UInt8 :=
  head ff_len ++ checksum.der_prefix ++ hash

/-- The check comes to a byte outside the buffer: the buffer ends before the
    zero; or within the prefix, with all of it there is; or within the hash, and
    all before is in order. -/
def Leaves (checksum : ChecksumAlgo) (hash msg : List UInt8) (ff_len : Nat) : Prop :=
  msg.length < 3+ff_len ∨
    msg.length < 3+ff_len+checksum.der_len ∧ msg.drop (3+ff_len) <+: checksum.der_prefix ∨
    3+ff_len+checksum.der_len ≤ msg.length ∧ msg.length < 3+ff_len+checksum.der_len+checksum.checksum_len ∧
      msg <+: encoding checksum hash ff_len

/-- When the check leaves the buffer, and what it accepts otherwise. -/
theorem pkcs_15_cases {checksum : ChecksumAlgo} {msg hash : List UInt8} {ff_len : Nat} (some_ff : 1 ≤ ff_len)
    (whole : hash.length = checksum.checksum_len) (short : msg.length < 2^64) (small : checksum.checksum_len < 2^64) :
    (padding_pkcs_15_verify checksum msg (checksum.checksum_len+(checksum.der_len+3+ff_len) : Nat) hash = none ↔
      Leaves checksum hash msg ff_len) ∧
    (padding_pkcs_15_verify checksum msg (checksum.checksum_len+(checksum.der_len+3+ff_len) : Nat) hash = some 0 ↔
      encoding checksum hash ff_len <+: msg) := by
  have pad : ((checksum.checksum_len+(checksum.der_len+3+ff_len) : Nat) : Int)-checksum.checksum_len =
      ((checksum.der_len+3+ff_len : Nat) : Int) := by
    push_cast
    ring
  have rest : ((checksum.checksum_len+(checksum.der_len+3+ff_len) : Nat) : Int)-((checksum.der_len+3+ff_len : Nat) : Int) =
      (checksum.checksum_len : Nat) := by
    push_cast
    ring
  unfold padding_pkcs_15_verify
  simp only [pad,rest,size_t_eq small,pointer_eq,bind_eq_bind]
  unfold Leaves
  by_cases ends : msg.length < 3+ff_len
  · rw [verify_padding_outside ends,bind_none]
    refine ⟨by simp [ends],⟨by simp,fun accepted => ?_⟩⟩
    have := accepted.length_le
    simp only [encoding,length_append,head_length] at this
    omega
  obtain ⟨ret,runs,zero⟩ := @verify_padding_eq msg checksum ff_len some_ff (not_lt.mp ends) short
  obtain ⟨leaves,result⟩ := memcmp_all (msg.drop (3+ff_len)) checksum.der_prefix
  change (memcmp (msg.drop (3+ff_len)) checksum.der_prefix checksum.der_len = none ↔ _) at leaves
  change ∀ r, memcmp (msg.drop (3+ff_len)) checksum.der_prefix checksum.der_len = some r → _ at result
  have derLen : checksum.der_prefix.length = checksum.der_len := rfl
  have split : msg = msg.take (3+ff_len) ++ msg.drop (3+ff_len) := (take_append_drop _ _).symm
  have behind : (msg.take (3+ff_len)).length = 3+ff_len := length_take_of_le (not_lt.mp ends)
  rw [runs]
  cases der : memcmp (msg.drop (3+ff_len)) checksum.der_prefix checksum.der_len with
  | none =>
    obtain ⟨agrees,shorter⟩ := leaves.mp der
    rw [length_drop,derLen] at shorter
    refine ⟨by simp [agrees]; omega,⟨by simp,fun accepted => ?_⟩⟩
    have := accepted.length_le
    simp only [encoding,length_append,head_length,derLen] at this
    omega
  | some r =>
    have zeroDer := result r der
    rw [map_some,bind_some]
    by_cases good : ret ||| r = 0
    · rw [if_neg (by simpa using good)]
      obtain ⟨retZero,rZero⟩ := BitVec.or_eq_zero_iff.mp good
      have heads := zero.mp retZero
      obtain ⟨data,tail⟩ := zeroDer.mp rZero
      rw [heads,← tail,← append_assoc] at split
      have drops : msg.drop (checksum.der_len+3+ff_len) = data := by
        rw [split]
        exact drop_left' (by rw [length_append,head_length,derLen]; omega)
      have length : msg.length = 3+ff_len+checksum.der_len+data.length := by
        rw [split,length_append,length_append,head_length,derLen]
      obtain ⟨hashLeaves,hashResult⟩ := memcmp_all data hash
      rw [whole] at hashLeaves hashResult
      rw [drops]
      have shape : encoding checksum hash ff_len = head ff_len ++ checksum.der_prefix ++ hash := rfl
      cases same : memcmp data hash checksum.checksum_len with
      | none =>
        obtain ⟨agrees,shorter⟩ := hashLeaves.mp same
        refine ⟨⟨fun _ => .inr (.inr ⟨by omega,by omega,?_⟩),fun _ => rfl⟩,⟨by simp,fun accepted => ?_⟩⟩
        · rw [split,shape]
          exact (prefix_append_right_inj _).mpr agrees
        · rw [split,shape] at accepted
          have := ((prefix_append_right_inj _).mp accepted).length_le
          omega
      | some d =>
        have zeroHash := hashResult d same
        rw [bind_some]
        refine ⟨⟨fun none_ => ?_,fun outside => ?_⟩,?_⟩
        · by_cases differ : d ≠ 0
          · rw [if_pos differ] at none_
            contradiction
          · rw [if_neg differ] at none_
            contradiction
        · rcases outside with outside | ⟨outside,_⟩ | ⟨_,outside,agrees⟩
          · omega
          · omega
          · rw [split,shape] at agrees
            have := hashLeaves.mpr ⟨(prefix_append_right_inj _).mp agrees,by omega⟩
            rw [same] at this
            contradiction
        · have accepts : encoding checksum hash ff_len <+: msg ↔ d = 0 := by
            rw [zeroHash,split,shape,prefix_append_right_inj]
          rw [accepts]
          by_cases differ : d = 0
          · simp [differ]
          · simp [EACCES]
    · rw [if_pos good]
      -- Had the padding and the prefix been there, they would have been found.
      have refused (there : head ff_len ++ checksum.der_prefix <+: msg) : False := by
        obtain ⟨data,is⟩ := there
        rw [append_assoc] at is
        refine good (BitVec.or_eq_zero_iff.mpr ⟨zero.mpr ?_,zeroDer.mpr ?_⟩)
        · rw [← is]
          exact take_left' (head_length ff_len)
        · rw [← is,drop_left' (head_length ff_len)]
          exact prefix_append _ _
      refine ⟨⟨by simp,fun outside => ?_⟩,⟨by simp [EINVAL],fun accepted => ?_⟩⟩
      · rcases outside with outside | ⟨outside,agrees⟩ | ⟨inside,_,agrees⟩
        · omega
        · have := leaves.mpr ⟨agrees,by rw [length_drop,derLen]; omega⟩
          rw [der] at this
          contradiction
        · refine absurd (prefix_of_prefix_length_le (prefix_append _ hash) agrees ?_) refused
          rw [length_append,head_length,derLen]
          omega
      · exact (refused ((prefix_append _ hash).trans accepted)).elim

def encoded (checksum : ChecksumAlgo) (hash : List UInt8) (len : Nat) : List UInt8 :=
  encoding checksum hash (len-checksum.checksum_len-checksum.der_len-3)

/-- The call reads inside the result of the exponentiation only, and accepts only
    when this is, as a whole, the encoding for `num_bits/8` bytes. -/
def Exact (rsa_mod_exp : List UInt8 → KeyProp → Int × List UInt8) (checksum : ChecksumAlgo) (crypto : CryptoAlgo)
    (prop : KeyProp) (sig hash : List UInt8) : Prop :=
  ∃ ret, rsa_verify_key (some rsa_mod_exp) (some checksum) (some padding_pkcs_15_verify) (some prop) (some sig)
      (some hash) crypto.key_len = some ret ∧
    (ret = 0 → (rsa_mod_exp sig prop).1 = 0 ∧
      (rsa_mod_exp sig prop).2 = encoded checksum hash ((prop.num_bits.tdiv 8)%2^32).toNat)

/-- The padding is checked: the signature is as long as the key and not too long,
    and the exponentiation succeeds. -/
def Reaches (rsa_mod_exp : List UInt8 → KeyProp → Int × List UInt8) (prop : KeyProp) (sig : List UInt8) : Prop :=
  sig.length = ((prop.num_bits.tdiv 8)%2^32).toNat ∧ sig.length ≤ RSA_MAX_SIG_BITS/8 ∧ (rsa_mod_exp sig prop).1 = 0

/-- The result is as long as the algorithm says; or longer, and does not begin
    with the encoding for that length; or shorter, and each comparison ends
    before the end of the result. -/
def Covered (checksum : ChecksumAlgo) (hash buf : List UInt8) (key_len : Nat) : Prop :=
  (key_len < buf.length → ¬ encoded checksum hash key_len <+: buf) ∧
    (buf.length < key_len → ¬ Leaves checksum hash buf (key_len-checksum.checksum_len-checksum.der_len-3))

theorem tables_fit : ∀ checksum ∈ checksum_algos, ∀ crypto ∈ cryptos,
    checksum.checksum_len+checksum.der_len+4 ≤ crypto.key_len ∧ crypto.key_len ≤ 512 := by
  simp [checksum_algos,cryptos,sha256,rsa2048,ChecksumAlgo.der_len]

theorem encoding_length {checksum : ChecksumAlgo} {hash : List UInt8} (whole : hash.length = checksum.checksum_len)
    (ff_len : Nat) : (encoding checksum hash ff_len).length = 3+ff_len+checksum.der_len+checksum.checksum_len := by
  simp only [encoding,length_append,head_length,whole]
  rfl

theorem encoding_apart {checksum : ChecksumAlgo} {hash : List UInt8} {short long : Nat} (less : short < long) :
    ¬ encoding checksum hash short <+: encoding checksum hash long := by
  intro begins
  obtain ⟨more,rfl⟩ : ∃ more, long = short+(more+1) := ⟨long-short-1,by omega⟩
  have one : encoding checksum hash short = ([0x00,0x01] ++ replicate short 0xff) ++
      (0x00 :: (checksum.der_prefix ++ hash)) := by simp [encoding,head]
  have other : encoding checksum hash (short+(more+1)) = ([0x00,0x01] ++ replicate short 0xff) ++
      (0xff :: (replicate more 0xff ++ 0x00 :: (checksum.der_prefix ++ hash))) := by
    simp [encoding,head,replicate_add,replicate_succ]
  rw [one,other,prefix_append_right_inj,cons_prefix_cons] at begins
  exact absurd begins.1 (by decide)

/-- A signature is checked exactly when the length of the algorithm is that of
    the result, or where they differ no shorter encoding begins the result and no
    comparison runs out of it. -/
theorem rsa_verify_key_exact_iff {checksum : ChecksumAlgo} {crypto : CryptoAlgo} (known : checksum ∈ checksum_algos)
    (rsa : crypto ∈ cryptos) (rsa_mod_exp : List UInt8 → KeyProp → Int × List UInt8) (prop : KeyProp)
    (sig hash : List UInt8) (fills : (rsa_mod_exp sig prop).2.length = sig.length)
    (whole : hash.length = checksum.checksum_len) :
    Exact rsa_mod_exp checksum crypto prop sig hash ↔
      (Reaches rsa_mod_exp prop sig → Covered checksum hash (rsa_mod_exp sig prop).2 crypto.key_len) := by
  obtain ⟨room,most⟩ := tables_fit checksum known crypto rsa
  unfold Exact rsa_verify_key
  dsimp only
  by_cases long : sig.length = ((prop.num_bits.tdiv 8)%2^32).toNat
  · rw [if_neg (not_not.mpr long)]
    by_cases limited : sig.length > RSA_MAX_SIG_BITS/8
    · rw [if_pos limited]
      refine ⟨fun _ reaches => absurd reaches.2.1 (not_le.mpr limited),fun _ => ⟨_,rfl,by simp [EINVAL]⟩⟩
    · rw [if_neg limited]
      by_cases fails : (rsa_mod_exp sig prop).1 ≠ 0
      · rw [if_pos fails]
        exact ⟨fun _ reaches => absurd reaches.2.2 fails,fun _ => ⟨_,rfl,fun zero => absurd zero fails⟩⟩
      · rw [if_neg fails]
        have succeeds := not_not.mp fails
        have reaches : Reaches rsa_mod_exp prop sig := ⟨long,not_lt.mp limited,succeeds⟩
        generalize (rsa_mod_exp sig prop).2 = buf at *
        rw [forall_prop_of_true reaches,← long,← fills]
        have small : buf.length < 2^64 := by
          unfold RSA_MAX_SIG_BITS at limited
          omega
        obtain ⟨ff_len,key_len⟩ : ∃ ff_len, crypto.key_len = checksum.checksum_len+(checksum.der_len+3+ff_len) :=
          ⟨crypto.key_len-checksum.checksum_len-checksum.der_len-3,by omega⟩
        obtain ⟨outside,accepts⟩ := @pkcs_15_cases checksum buf hash ff_len (by omega) whole small (by omega)
        have ffIs : crypto.key_len-checksum.checksum_len-checksum.der_len-3 = ff_len := by omega
        have encodingLength := encoding_length whole ff_len
        rw [← key_len] at outside accepts
        unfold Covered encoded
        rw [ffIs]
        cases runs : padding_pkcs_15_verify checksum buf crypto.key_len hash with
        | none =>
          have leaves := outside.mp runs
          refine ⟨fun ⟨ret,stops,_⟩ => by simp at stops,fun covered => absurd leaves (covered.2 ?_)⟩
          rcases leaves with ends | ⟨ends,_⟩ | ⟨_,ends,_⟩
          · omega
          · omega
          · omega
        | some ret =>
          have inside : ¬ Leaves checksum hash buf ff_len := fun leaves => by
            rw [outside.mpr leaves] at runs
            contradiction
          rw [runs] at accepts
          dsimp only
          by_cases refused : ret ≠ 0
          · rw [if_pos refused]
            refine ⟨fun _ => ⟨fun _ begins => refused (Option.some.inj (accepts.mpr begins)),fun _ => inside⟩,fun _ =>
              ⟨ret,rfl,fun zero => absurd zero refused⟩⟩
          · rw [if_neg refused]
            have begins := accepts.mp (by rw [not_not.mp refused])
            have least := begins.length_le
            refine ⟨fun ⟨_,ends,exact_⟩ => ⟨fun longer _ => ?_,fun _ => inside⟩,fun covered => ⟨0,rfl,fun _ => ⟨succeeds,?_⟩⟩⟩
            · obtain ⟨_,is⟩ := exact_ (Option.some.inj ends).symm
              rw [is] at begins
              exact encoding_apart (by omega) begins
            · have same : buf.length = crypto.key_len := by
                rcases Nat.lt_trichotomy buf.length crypto.key_len with less | equal | more
                · omega
                · exact equal
                · exact absurd begins (covered.1 more)
              rw [same,ffIs]
              exact (begins.eq_of_length (by omega)).symm
  · rw [if_pos long]
    exact ⟨fun _ reaches => absurd reaches.1 long,fun _ => ⟨_,rfl,by simp [EINVAL]⟩⟩

/-- The exponentiation in software as the device gives it; an error where it has
    no value. -/
def mod_exp_sw (sig : List UInt8) (prop : KeyProp) : Int × List UInt8 :=
  match rsa_mod_exp_sw sig (some prop) with
  | some (.ok out) => (0,out)
  | some (.error ret) => (ret,sig)
  | none => (-EFAULT,sig)

/-- With a key that suits the algorithm a signature is accepted exactly when it is as long as the
    key and its power, by the exponent that is seen, is the encoding. -/
theorem rsa_verify_key_sw_iff {checksum : ChecksumAlgo} {crypto : CryptoAlgo} (known : checksum ∈ checksum_algos)
    (rsa : crypto ∈ cryptos) {prop : KeyProp} {n e : Nat} (suits : Suits prop (8*crypto.key_len) n e) (odd : e%2 = 1)
    (large : 3 ≤ e) (sig hash : List UInt8) (whole : hash.length = checksum.checksum_len) :
    rsa_verify_key (some mod_exp_sw) (some checksum) (some padding_pkcs_15_verify) (some prop) (some sig) (some hash)
        crypto.key_len = some 0 ↔
      sig.length = crypto.key_len ∧ os2ip sig^seen_exponent e%n = os2ip (encoded checksum hash crypto.key_len) := by
  obtain ⟨room,most⟩ := tables_fit checksum known crypto rsa
  have bits : ((prop.num_bits.tdiv 8)%2^32).toNat = crypto.key_len := by
    rw [suits.bits,Nat.cast_mul,Nat.cast_ofNat,Int.mul_tdiv_cancel_left _ (show (8 : Int) ≠ 0 by decide)]
    omega
  rw [rsa_verify_key,bits]
  by_cases long : sig.length = crypto.key_len
  · obtain ⟨out,runs,outLength,outValue⟩ := rsa_mod_exp_sw_seen suits odd large (show sig.length = 8*crypto.key_len/8 by omega)
    have done : mod_exp_sw sig prop = (0,out) := by rw [mod_exp_sw,runs]
    obtain ⟨ff_len,key_len⟩ : ∃ ff_len, crypto.key_len = checksum.checksum_len+(checksum.der_len+3+ff_len) :=
      ⟨crypto.key_len-checksum.checksum_len-checksum.der_len-3,by omega⟩
    have ffIs : crypto.key_len-checksum.checksum_len-checksum.der_len-3 = ff_len := by omega
    have accepts := (@pkcs_15_cases checksum out hash ff_len (by omega) whole (by omega) (by omega)).2
    have length : (encoding checksum hash ff_len).length = out.length := by
      rw [encoding_length whole]
      omega
    have whole_result : encoding checksum hash ff_len <+: out ↔ os2ip out = os2ip (encoding checksum hash ff_len) :=
      ⟨fun begins => by rw [begins.eq_of_length length],fun same => by rw [os2ip_injective length same.symm]⟩
    rw [← key_len,whole_result,outValue] at accepts
    dsimp only
    rw [if_neg (not_not.mpr long),if_neg (by unfold RSA_MAX_SIG_BITS; omega),done,if_neg (by simp),encoded,ffIs,← accepts]
    cases checked : padding_pkcs_15_verify checksum out crypto.key_len hash with
    | none => simp
    | some ret => by_cases zero : ret = 0 <;> simp [zero,long]
  · dsimp only
    rw [if_pos long]
    simp [long,EINVAL]

/-- A key with the exponent 3 for which the cube of a number is the buffer. -/
def cube_key (num_bits root : Nat) (buf : List UInt8) : KeyProp :=
  ⟨some (i2osp (num_bits/8) (2^(2*num_bits)%(root^3-os2ip buf))),some (i2osp (num_bits/8) (root^3-os2ip buf)),
    some (i2osp 8 3),1,num_bits⟩

theorem cube_key_result {num_bits root : Nat} {buf : List UInt8} (words : 32 ∣ num_bits)
    (least : RSA_MIN_KEY_BITS ≤ num_bits) (most : num_bits ≤ RSA_MAX_KEY_BITS) (odd : (root^3-os2ip buf)%2 = 1)
    (top : 2^(num_bits-1) ≤ root^3-os2ip buf) (fits : root^3-os2ip buf < 256^(num_bits/8))
    (inverts : (1*(root^3-os2ip buf)+1)%2^32 = 0) (length : buf.length = num_bits/8)
    (less : os2ip buf < root^3-os2ip buf) (rootFits : root < 256^(num_bits/8)) :
    mod_exp_sw (i2osp (num_bits/8) root) (cube_key num_bits root buf) = (0,buf) := by
  have square : 2^(2*num_bits)%(root^3-os2ip buf) < 256^(num_bits/8) :=
    lt_trans (Nat.mod_lt _ (by omega)) fits
  have suits : Suits (cube_key num_bits root buf) num_bits (root^3-os2ip buf) 3 :=
    ⟨rfl,words,least,most,⟨_,rfl,i2osp_length _ _,os2ip_i2osp fits⟩,odd,top,inverts,
      ⟨_,rfl,i2osp_length _ _,os2ip_i2osp square⟩,.inl ⟨_,rfl,i2osp_length _ _,os2ip_i2osp (by norm_num)⟩⟩
  obtain ⟨out,runs,outLength,outValue⟩ := rsa_mod_exp_sw_seen suits (by norm_num) (by norm_num) (i2osp_length (num_bits/8) root)
  have seen : seen_exponent 3 = 3 := by decide
  have cube : root^3 = os2ip buf+(root^3-os2ip buf) := by omega
  rw [os2ip_i2osp rootFits,seen,cube,Nat.add_sub_cancel_left] at outValue
  rw [Nat.add_mod_right,Nat.mod_eq_of_lt less] at outValue
  rw [mod_exp_sw,runs,os2ip_injective (outLength.trans length.symm) outValue]

def one_hash : List UInt8 := List.replicate 31 0 ++ [1]

/-- The cube of one plus the root of the modulus is no encoding. -/
theorem rsa_verify_key_refuses :
    rsa_verify_key (some mod_exp_sw) (some sha256) (some padding_pkcs_15_verify) (some (square_key 3)) (some square_sig)
      (some one_hash) rsa2048.key_len ≠ some 0 := by
  have suits : Suits (square_key 3) (8*rsa2048.key_len) (square_root*square_root) 3 := square_key_suits (by decide)
  intro accepted
  have power := ((rsa_verify_key_sw_iff (by simp [checksum_algos]) (by simp [cryptos]) suits rfl (by decide) square_sig one_hash
    rfl).mp accepted).2
  rw [square_sig_value] at power
  exact absurd power (by decide +kernel)

def good_result : List UInt8 := encoded sha256 one_hash 256

/-- The encoding for 2048 bits in front, and as many bytes behind it. -/
def trailing_result : List UInt8 := good_result ++ (List.replicate 255 0 ++ [1])

theorem good_key_result :
    mod_exp_sw (i2osp (2048/8) (3*2^681)) (cube_key 2048 (3*2^681) good_result) = (0,good_result) :=
  cube_key_result (by decide) (by decide) (by decide) (by decide +kernel) (by decide +kernel) (by decide +kernel)
    (by decide +kernel) (by decide +kernel) (by decide +kernel) (by decide +kernel)

theorem trailing_key_result :
    mod_exp_sw (i2osp (4096/8) (5*2^1363)) (cube_key 4096 (5*2^1363) trailing_result) = (0,trailing_result) :=
  cube_key_result (by decide) (by decide) (by decide) (by decide +kernel) (by decide +kernel) (by decide +kernel)
    (by decide +kernel) (by decide +kernel) (by decide +kernel) (by decide +kernel)

theorem rsa_verify_key_2048_exact :
    Exact mod_exp_sw sha256 rsa2048 (cube_key 2048 (3*2^681) good_result) (i2osp (2048/8) (3*2^681)) one_hash := by
  have length : good_result.length = 256 := by decide +kernel
  refine (rsa_verify_key_exact_iff (by simp [checksum_algos]) (by simp [cryptos]) mod_exp_sw _ _ _ ?_ rfl).mpr fun _ => ?_
  · rw [good_key_result,length,i2osp_length]
  · rw [good_key_result]
    exact ⟨fun longer => absurd longer (by rw [length]; decide),fun shorter => absurd shorter (by rw [length]; decide)⟩

/-- A key of 4096 bits under the name of an algorithm for 2048: half of the result
    is not looked at. -/
theorem rsa_verify_key_accepts_trailing :
    rsa_verify_key (some mod_exp_sw) (some sha256) (some padding_pkcs_15_verify)
        (some (cube_key 4096 (5*2^1363) trailing_result)) (some (i2osp (4096/8) (5*2^1363))) (some one_hash)
        rsa2048.key_len = some 0 ∧
      ¬ Exact mod_exp_sw sha256 rsa2048 (cube_key 4096 (5*2^1363) trailing_result) (i2osp (4096/8) (5*2^1363))
        one_hash := by
  have length : trailing_result.length = 512 := by decide +kernel
  have accepted : padding_pkcs_15_verify sha256 trailing_result (256 : Nat) one_hash = some 0 := by
    refine (@pkcs_15_cases sha256 trailing_result one_hash 202 (by decide) rfl (by rw [length]; decide) (by decide)).2.mpr ?_
    exact List.prefix_append _ _
  have runs : rsa_verify_key (some mod_exp_sw) (some sha256) (some padding_pkcs_15_verify)
      (some (cube_key 4096 (5*2^1363) trailing_result)) (some (i2osp (4096/8) (5*2^1363))) (some one_hash)
      rsa2048.key_len = some 0 := by
    rw [rsa_verify_key]
    dsimp only
    rw [trailing_key_result,if_neg (by rw [i2osp_length]; decide),if_neg (by rw [i2osp_length]; decide),if_neg (by decide)]
    dsimp only
    rw [show ((rsa2048.key_len : Nat) : Int) = (256 : Nat) from rfl,accepted]
    rfl
  refine ⟨runs,?_⟩
  rintro ⟨ret,ends,exact_⟩
  rw [runs] at ends
  obtain ⟨_,is⟩ := exact_ (Option.some.inj ends).symm
  rw [trailing_key_result] at is
  have whole : trailing_result = encoding sha256 one_hash 458 := is
  have begins : encoding sha256 one_hash 202 <+: trailing_result := List.prefix_append _ _
  rw [whole] at begins
  exact encoding_apart (by decide) begins

end UBoot.RsaVerify
