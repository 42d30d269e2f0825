import UBoot.RsaVerify

/-!
The check of PSS padding of `lib/rsa/rsa-verify.c`, beside the encoding that it
undoes: for messages of one bit less than the buffer holds, any length of the
salt, and MGF1 over the hash that is checked. A buffer whose memory cannot be
had ends the check; that of the mask generation does not, and leaves a mask of
zeros.
-/
namespace UBoot.RsaPss
open UBoot.Octets UBoot.RsaModExp UBoot.RsaVerify List Option

def ENOMEM : Int := 12

/-- A checksum algorithm with its function on octet strings. -/
structure HashFunction where
  checksum_len : Nat
  calculate : List UInt8 → List UInt8
  positive : 0 < checksum_len
  length : ∀ data, (calculate data).length = checksum_len

def u32_i2osp (val : Nat) : List UInt8 :=
  [UInt8.ofNat (val/2^24),UInt8.ofNat (val/2^16),UInt8.ofNat (val/2^8),UInt8.ofNat val]

/-- The loop of `mask_generation_function1` for so many rounds, with so many
    octets left to write. -/
def mask_from (checksum : HashFunction) (seed : List UInt8) : Nat → Nat → Nat → List UInt8
  | 0, _, _ => []
  | rounds+1, counter, left =>
    if left = 0 then []
    else
      let tmp := checksum.calculate (seed ++ u32_i2osp counter)
      tmp.take left ++ mask_from checksum seed rounds ((counter+1)%2^32) (left-tmp.length)

/-- The return code and the mask. The memory for `tmp` is there or not. -/
def mask_generation_function1 (checksum : HashFunction) (tmp : Bool) (seed : List UInt8) (output_len : Nat) :
    Int × List UInt8 :=
  if tmp = false then (-ENOMEM,List.replicate output_len 0)
  else (0,mask_from checksum seed output_len 0 output_len)

def compute_hash_prime (checksum : HashFunction) (pad hash salt : List UInt8) : List UInt8 :=
  checksum.calculate (pad ++ hash ++ salt)

/-- So many octets from an offset on. No value where they are not all inside. -/
def area (buf : List UInt8) (off len : Nat) : Option (List UInt8) :=
  if off+len ≤ buf.length then some ((buf.drop off).take len) else none

/-- The octets under the mask, with the leftmost bit cleared. -/
def unmask (masked_db db_mask : List UInt8) : List UInt8 :=
  (List.zipWith (fun x y => x ^^^ y) masked_db db_mask).modifyHead fun first => first &&& 0x7f

/-- What is left from the first octet on that is not zero, or from the last one. -/
def skip_padding : List UInt8 → List UInt8
  | first :: second :: rest => if first = 0x00 then skip_padding (second :: rest) else first :: second :: rest
  | db => db

/-- The return code. The memory of the three buffers is there or not, and so is
    that of the mask generation. No value where an octet outside is touched. -/
def padding_pss_verify (checksum : HashFunction) (buffers tmp : Bool) (msg : List UInt8) (msg_len : Nat)
    (hash : List UInt8) (hash_len : Nat) : Option Int :=
  if msg_len ≤ hash_len+1 then some (-EINVAL)
  else if buffers = false then some (-ENOMEM)
  else
    let db_len := msg_len-hash_len-1
    msg[msg_len-1]?.bind fun last =>
    if last ≠ 0xbc then some (-EINVAL)
    else
      msg[0]?.bind fun first =>
      if first &&& 0x80 ≠ 0 then some (-EINVAL)
      else
        (area msg 0 db_len).bind fun masked_db =>
        (area msg db_len hash_len).bind fun h =>
        let db_mask := (mask_generation_function1 checksum tmp h db_len).2
        let db := unmask masked_db db_mask
        let db_nopad := skip_padding db
        if db_nopad.headD 0 ≠ 0x01 then some EINVAL
        else
          let salt := db_nopad.tail
          (area hash 0 hash_len).bind fun hash =>
          let hprime := compute_hash_prime checksum (List.replicate 8 0) hash salt
          (memcmp h hprime hash_len).map BitVec.toInt

/-- MGF1: the blocks of the hash over the seed and a counter, cut to length. -/
def mgf1 (checksum : HashFunction) (seed : List UInt8) (len : Nat) : List UInt8 :=
  ((List.range ((len+checksum.checksum_len-1)/checksum.checksum_len)).flatMap fun counter =>
    checksum.calculate (seed ++ i2osp 4 counter)).take len

/-- EMSA-PSS for one bit less than the octets hold, with a mask for a seed. -/
def emsa_pss_encode (checksum : HashFunction) (mask : List UInt8 → Nat → List UInt8) (hash salt : List UInt8)
    (em_len : Nat) : List UInt8 :=
  let h := checksum.calculate (List.replicate 8 0 ++ hash ++ salt)
  let db := List.replicate (em_len-salt.length-checksum.checksum_len-2) 0x00 ++ 0x01 :: salt
  unmask db (mask h db.length) ++ h ++ [0xbc]

def Valid (checksum : HashFunction) (mask : List UInt8 → Nat → List UInt8) (hash msg : List UInt8) : Prop :=
  ∃ salt, salt.length+checksum.checksum_len+2 ≤ msg.length ∧ msg = emsa_pss_encode checksum mask hash salt msg.length

theorem u32_i2osp_eq (val : Nat) : u32_i2osp (val%2^32) = i2osp 4 val := by
  have octet (k : Nat) (small : k ≤ 24) : UInt8.ofNat (val%2^32/2^k) = UInt8.ofNat (val/2^k) := by
    refine UInt8.toNat_inj.mp ?_
    rw [UInt8.toNat_ofNat',UInt8.toNat_ofNat']
    have multiple : (2^32 : Nat) = 2^k*(2^8*2^(24-k)) := by
      rw [← pow_add,← pow_add]
      congr 1
      omega
    rw [multiple,Nat.mod_mul_right_div_self,Nat.mod_mod_of_dvd _ (dvd_mul_right _ _)]
  have three := octet 24 (by norm_num)
  have two := octet 16 (by norm_num)
  have one := octet 8 (by norm_num)
  have zero := octet 0 (by norm_num)
  simp only [pow_zero,Nat.div_one] at zero
  rw [u32_i2osp,three,two,one,zero]
  simp [i2osp,Nat.div_div_eq_div_mul]

theorem mask_from_length (checksum : HashFunction) (seed : List UInt8) {rounds counter left : Nat} (enough : left ≤ rounds) :
    (mask_from checksum seed rounds counter left).length = left := by
  induction rounds generalizing counter left with
  | zero =>
    obtain rfl : left = 0 := by omega
    rfl
  | succ rounds ih =>
    rw [mask_from]
    by_cases done : left = 0
    · simp [done]
    · have positive := checksum.positive
      have len := checksum.length (seed ++ u32_i2osp counter)
      rw [if_neg done]
      dsimp only
      rw [length_append,length_take,ih (by omega),len]
      omega

theorem mask_from_eq (checksum : HashFunction) (seed : List UInt8) {rounds left blocks : Nat} (counter : Nat)
    (enough : left ≤ rounds) (covers : left ≤ blocks*checksum.checksum_len) :
    mask_from checksum seed rounds (counter%2^32) left =
      ((range' counter blocks).flatMap fun counter => checksum.calculate (seed ++ i2osp 4 counter)).take left := by
  induction rounds generalizing counter left blocks with
  | zero =>
    obtain rfl : left = 0 := by omega
    simp [mask_from]
  | succ rounds ih =>
    rw [mask_from]
    by_cases done : left = 0
    · simp [done]
    have positive := checksum.positive
    have len := checksum.length (seed ++ i2osp 4 counter)
    obtain ⟨rest,rfl⟩ : ∃ rest, blocks = rest+1 := by
      refine ⟨blocks-1,?_⟩
      have : blocks ≠ 0 := by rintro rfl; omega
      omega
    rw [add_mul,one_mul] at covers
    rw [if_neg done,u32_i2osp_eq]
    dsimp only
    rw [range'_succ,flatMap_cons,take_append,len,Nat.mod_add_mod]
    congr 1
    exact ih (counter+1) (by omega) (by omega)

theorem mask_generation_eq (checksum : HashFunction) (seed : List UInt8) (len : Nat) :
    (mask_generation_function1 checksum true seed len).2 = mgf1 checksum seed len ∧
      (mask_generation_function1 checksum false seed len).2 = replicate len 0 := by
  refine ⟨?_,rfl⟩
  have positive := checksum.positive
  have covers : len ≤ (len+checksum.checksum_len-1)/checksum.checksum_len*checksum.checksum_len := by
    have := Nat.lt_div_mul_add (a := len+checksum.checksum_len-1) positive
    omega
  have written := mask_from_eq checksum seed 0 (le_refl len) covers
  rw [range_eq_range'.symm] at written
  exact written

theorem mask_length (checksum : HashFunction) (tmp : Bool) (seed : List UInt8) (len : Nat) :
    (mask_generation_function1 checksum tmp seed len).2.length = len := by
  cases tmp with
  | false => exact length_replicate
  | true => exact mask_from_length checksum seed (le_refl len)

theorem top_bit_clear (x : UInt8) : x &&& 0x7f &&& 0x80 = 0 := by
  rw [UInt8.and_assoc,show (0x7f : UInt8) &&& 0x80 = 0 by decide,UInt8.and_zero]

theorem and_low_bits {x : UInt8} (clear : x &&& 0x80 = 0) : x &&& 0x7f = x := by
  refine UInt8.toBitVec_inj.mp ?_
  have outside : x.toBitVec &&& ~~~(0x7f : BitVec 8) = 0 := congrArg UInt8.toBitVec clear
  exact UBoot.Words.and_eq_self outside

theorem mask_twice (x y c : UInt8) : ((x ^^^ y) &&& c ^^^ y) &&& c = x &&& c := by
  refine UInt8.toBitVec_inj.mp (BitVec.eq_of_getLsbD_eq fun i _ => ?_)
  simp only [UInt8.toBitVec_and,UInt8.toBitVec_xor,BitVec.getLsbD_and,BitVec.getLsbD_xor]
  cases x.toBitVec.getLsbD i <;> cases y.toBitVec.getLsbD i <;> cases c.toBitVec.getLsbD i <;> rfl

theorem unmask_unmask {db mask : List UInt8} (length : mask.length = db.length) (clear : db.headD 0 &&& 0x80 = 0) :
    unmask (unmask db mask) mask = db := by
  cases db with
  | nil => simp [unmask]
  | cons x xs =>
    cases mask with
    | nil => contradiction
    | cons y ys =>
      have twice : ∀ (xs ys : List UInt8), ys.length = xs.length →
          List.zipWith (fun x y => x ^^^ y) (List.zipWith (fun x y => x ^^^ y) xs ys) ys = xs := by
        intro xs
        induction xs with
        | nil => simp
        | cons x xs ih =>
          intro ys same
          cases ys with
          | nil => contradiction
          | cons y ys => simp [UInt8.xor_assoc,ih ys (by simpa using same)]
      simp only [headD_cons] at clear
      simp only [unmask,zipWith_cons_cons,modifyHead_cons,mask_twice,and_low_bits clear,
        twice xs ys (by simpa using length)]

theorem unmask_length {db mask : List UInt8} (length : mask.length = db.length) : (unmask db mask).length = db.length := by
  simp [unmask,length]

theorem unmask_clear (db mask : List UInt8) : (unmask db mask).headD 0 &&& 0x80 = 0 := by
  unfold unmask
  cases List.zipWith (fun x y => x ^^^ y) db mask with
  | nil => simp
  | cons x xs => simp only [modifyHead_cons,headD_cons,top_bit_clear]

theorem skip_padding_zeros (len : Nat) (rest : List UInt8) {x : UInt8} (stop : x ≠ 0) :
    skip_padding (replicate len 0x00 ++ x :: rest) = x :: rest := by
  induction len with
  | zero =>
    cases rest with
    | nil => rfl
    | cons y ys => simp [skip_padding,stop]
  | succ len ih =>
    cases len with
    | zero | succ len => simpa [skip_padding,replicate_succ] using ih

theorem skip_padding_split (db : List UInt8) : ∃ len, db = replicate len 0x00 ++ skip_padding db := by
  induction db with
  | nil => exact ⟨0,rfl⟩
  | cons x xs ih =>
    cases xs with
    | nil => exact ⟨0,rfl⟩
    | cons y ys =>
      by_cases zero : x = 0x00
      · obtain ⟨len,split⟩ := ih
        refine ⟨len+1,?_⟩
        rw [skip_padding,if_pos zero,zero,replicate_succ,cons_append,← split]
      · exact ⟨0,by rw [skip_padding,if_neg zero]; rfl⟩

variable {checksum : HashFunction}

theorem plain_clear (len : Nat) (salt : List UInt8) :
    (replicate len (0x00 : UInt8) ++ 0x01 :: salt).headD 0 &&& 0x80 = 0 := by
  cases len with
  | zero => simp only [replicate_zero,nil_append,headD_cons]; rfl
  | succ len => simp only [replicate_succ,cons_append,headD_cons,UInt8.zero_and]

theorem valid_iff {mask : List UInt8 → Nat → List UInt8} (masks : ∀ seed len, (mask seed len).length = len)
    {hash masked h : List UInt8} {last : UInt8} (hLen : h.length = checksum.checksum_len) :
    Valid checksum mask hash (masked ++ h ++ [last]) ↔
      last = 0xbc ∧ masked.headD 0 &&& 0x80 = 0 ∧ ∃ len salt,
        unmask masked (mask h masked.length) = replicate len 0x00 ++ 0x01 :: salt ∧
        h = checksum.calculate (replicate 8 0 ++ hash ++ salt) := by
  constructor
  · rintro ⟨salt,fits,is⟩
    simp only [length_append,length_singleton,hLen] at fits
    unfold emsa_pss_encode at is
    dsimp only at is
    generalize lenIs : (masked ++ h ++ [last]).length-salt.length-checksum.checksum_len-2 = len at is
    simp only [length_append,length_singleton,hLen] at lenIs
    obtain ⟨front,ends⟩ := append_inj' is rfl
    obtain ⟨maskedIs,hIs⟩ := append_inj' front (by rw [hLen,checksum.length])
    have plainLength : (replicate len (0x00 : UInt8) ++ 0x01 :: salt).length = masked.length := by
      simp only [length_append,length_replicate,length_cons]
      omega
    rw [← hIs,plainLength] at maskedIs
    refine ⟨by simpa using ends,?_,len,salt,?_,hIs⟩
    · rw [maskedIs]
      exact unmask_clear _ _
    · have plain := unmask_unmask (show (mask h masked.length).length = (replicate len 0x00 ++ 0x01 :: salt).length by
        rw [masks,plainLength]) (plain_clear len salt)
      rwa [← maskedIs] at plain
  · rintro ⟨rfl,clear,len,salt,plain,hIs⟩
    have masksLength : (mask h masked.length).length = masked.length := masks _ _
    have lengths : masked.length = len+1+salt.length := by
      rw [← unmask_length masksLength,plain]
      simp only [length_append,length_replicate,length_cons]
      omega
    refine ⟨salt,?_,?_⟩
    · simp only [length_append,length_singleton,hLen]
      omega
    · have zeros : (masked ++ h ++ [0xbc]).length-salt.length-checksum.checksum_len-2 = len := by
        simp only [length_append,length_singleton,hLen]
        omega
      unfold emsa_pss_encode
      dsimp only
      rw [zeros,← hIs,← plain,unmask_length masksLength,unmask_unmask masksLength clear]

theorem area_eq {buf : List UInt8} {off len : Nat} (inside : off+len ≤ buf.length) :
    area buf off len = some ((buf.drop off).take len) := if_pos inside

theorem skip_padding_one (db : List UInt8) :
    (skip_padding db).headD 0 = 0x01 ↔ ∃ len salt, db = replicate len 0x00 ++ 0x01 :: salt := by
  constructor
  · intro one
    obtain ⟨len,split⟩ := skip_padding_split db
    cases rest : skip_padding db with
    | nil => simp [rest] at one
    | cons x salt =>
      rw [rest] at one split
      obtain rfl : x = 0x01 := one
      exact ⟨len,salt,split⟩
  · rintro ⟨len,salt,rfl⟩
    rw [skip_padding_zeros len salt (by simp)]
    rfl

theorem salt_unique {len len' : Nat} {salt salt' : List UInt8}
    (same : replicate len (0x00 : UInt8) ++ 0x01 :: salt = replicate len' 0x00 ++ 0x01 :: salt') : salt = salt' := by
  have skipped := congrArg skip_padding same
  rw [skip_padding_zeros len salt (by simp),skip_padding_zeros len' salt' (by simp)] at skipped
  exact (List.cons.inj skipped).2

theorem message_parts {msg : List UInt8} {len : Nat} (long : len+1 < msg.length) :
    ∃ x xs h last, msg = x :: xs ++ h ++ [last] ∧ h.length = len := by
  obtain ⟨front,last,rfl⟩ := eq_nil_or_concat msg |>.resolve_left (by rintro rfl; simp at long)
  simp only [concat_eq_append,length_append,length_singleton] at long
  obtain ⟨x,xs,masked⟩ := exists_cons_of_length_pos (show 0 < (front.take (front.length-len)).length by
    rw [length_take]
    omega)
  refine ⟨x,xs,front.drop (front.length-len),last,?_,?_⟩
  · rw [← masked,take_append_drop,concat_eq_append]
  · rw [length_drop]
    omega

theorem pss_checked (tmp : Bool) {msg hash : List UInt8} (whole : hash.length = checksum.checksum_len)
    (long : checksum.checksum_len+1 < msg.length) :
    ∃ ret, padding_pss_verify checksum true tmp msg msg.length hash hash.length = some ret ∧
      (ret = 0 ↔ Valid checksum (fun seed len => (mask_generation_function1 checksum tmp seed len).2) hash msg) := by
  set hlen := checksum.checksum_len
  obtain ⟨x,xs,h,last,rfl,hLen⟩ := message_parts long
  rw [valid_iff (mask_length checksum tmp) hLen]
  have total : (x :: xs ++ h ++ [last]).length = (x :: xs).length+hlen+1 := by
    simp only [length_append,length_singleton,hLen]
  rw [total] at long ⊢
  rw [whole]
  have dbLen : (x :: xs).length+hlen+1-hlen-1 = (x :: xs).length := by omega
  have lastAt : (x :: xs ++ h ++ [last])[(x :: xs).length+hlen+1-1]? = some last := by
    rw [Nat.add_sub_cancel,show (x :: xs).length+hlen = (x :: xs ++ h).length by
      rw [length_append,hLen]]
    exact getElem?_concat_length
  have firstAt : (x :: xs ++ h ++ [last])[0]? = some x := rfl
  have maskedIs : area (x :: xs ++ h ++ [last]) 0 (x :: xs).length = some (x :: xs) := by
    rw [area_eq (by rw [total]; omega),drop_zero,append_assoc,take_left]
  have hIs : area (x :: xs ++ h ++ [last]) (x :: xs).length hlen = some h := by
    rw [area_eq (by rw [total]; omega),append_assoc,drop_left,← hLen,take_left]
  have hashIs : area hash 0 hlen = some hash := by
    rw [area_eq (by omega),drop_zero,← whole,take_length]
  unfold padding_pss_verify
  rw [if_neg (by omega),if_neg (by simp)]
  dsimp only
  rw [dbLen,lastAt,bind_some]
  by_cases ends : last = 0xbc
  · rw [if_neg (not_not.mpr ends),firstAt,bind_some]
    by_cases clear : x &&& 0x80 = 0
    · rw [if_neg (not_not.mpr clear),maskedIs,bind_some,hIs,bind_some]
      by_cases one : (skip_padding (unmask (x :: xs) (mask_generation_function1 checksum tmp h (x :: xs).length).2)).headD 0 = 0x01
      · rw [if_neg (not_not.mpr one),hashIs,bind_some]
        obtain ⟨len,salt,plain⟩ := (skip_padding_one _).mp one
        rw [plain,skip_padding_zeros len salt (by simp),tail_cons]
        obtain ⟨r,runs,zero⟩ := @memcmp_within h (compute_hash_prime checksum (replicate 8 0) hash salt)
          hlen (by omega) (by rw [compute_hash_prime,checksum.length])
        refine ⟨r.toInt,by rw [runs,map_some],?_⟩
        have same : r = 0 ↔ h = checksum.calculate (replicate 8 0 ++ hash ++ salt) := by
          rw [zero,compute_hash_prime,← hLen,take_length,hLen,take_of_length_le (checksum.length _).le]
        have none : r.toInt = 0 ↔ r = 0 := by
          rw [← BitVec.toInt_zero (w := 32),BitVec.toInt_inj]
          rfl
        rw [none,same]
        refine ⟨fun is => ⟨ends,clear,len,salt,rfl,is⟩,?_⟩
        rintro ⟨-,-,len',salt',plain',is⟩
        rwa [salt_unique plain']
      · refine ⟨EINVAL,if_pos one,iff_of_false (by simp [EINVAL]) ?_⟩
        rintro ⟨-,-,len,salt,plain,-⟩
        exact one ((skip_padding_one _).mpr ⟨len,salt,plain⟩)
    · exact ⟨-EINVAL,if_pos clear,iff_of_false (by simp [EINVAL]) fun valid => clear valid.2.1⟩
  · exact ⟨-EINVAL,if_pos ends,iff_of_false (by simp [EINVAL]) fun valid => ends valid.1⟩

/-- The check returns, and its code is zero exactly for the encodings of the hash
    with MGF1. -/
def Implements (checksum : HashFunction) (buffers tmp : Bool) (hash msg : List UInt8) : Prop :=
  ∃ ret, padding_pss_verify checksum buffers tmp msg msg.length hash hash.length = some ret ∧
    (ret = 0 ↔ Valid checksum (mgf1 checksum) hash msg)

def zeros (_ : List UInt8) (len : Nat) : List UInt8 := List.replicate len 0

theorem generated_mgf1 (checksum : HashFunction) :
    (fun seed len => (mask_generation_function1 checksum true seed len).2) = mgf1 checksum := by
  funext seed len
  exact (mask_generation_eq checksum seed len).1

/-- Without the memory of the mask generation the check is that of encodings
    which no mask hides, and without its buffers it refuses. -/
theorem padding_pss_verify_iff (buffers tmp : Bool) {msg hash : List UInt8} (whole : hash.length = checksum.checksum_len)
    (long : checksum.checksum_len+1 < msg.length) :
    Implements checksum buffers tmp hash msg ↔
      (buffers = true ∧ tmp = true) ∨
      (buffers = true ∧ tmp = false ∧ (Valid checksum zeros hash msg ↔ Valid checksum (mgf1 checksum) hash msg)) ∨
      (buffers = false ∧ ¬Valid checksum (mgf1 checksum) hash msg) := by
  cases buffers with
  | false =>
    have refuses : padding_pss_verify checksum false tmp msg msg.length hash hash.length = some (-ENOMEM) := by
      rw [padding_pss_verify,if_neg (by omega),if_pos rfl]
    simp [Implements,refuses,ENOMEM]
  | true =>
    obtain ⟨ret,runs,accepts⟩ := pss_checked tmp whole long
    have same : Implements checksum true tmp hash msg ↔ (ret = 0 ↔ Valid checksum (mgf1 checksum) hash msg) := by
      simp [Implements,runs]
    rw [same,accepts]
    cases tmp with
    | false =>
      rw [show (fun seed len => (mask_generation_function1 checksum false seed len).2) = zeros from rfl]
      simp
    | true => simp [generated_mgf1]

def one_octet : HashFunction where
  checksum_len := 1
  calculate data := [data.foldl (fun sum octet => sum+octet) 1]
  positive := Nat.one_pos
  length _ := rfl

theorem padding_pss_verify_one_octet :
    Implements one_octet true true [0x00] [0x03,0x01,0xbc] ∧ Valid one_octet (mgf1 one_octet) [0x00] [0x03,0x01,0xbc] :=
  ⟨(padding_pss_verify_iff true true rfl (by decide)).mpr (.inl ⟨rfl,rfl⟩),[],by decide,by decide⟩

/-- No mask hides the octets that are accepted here. -/
theorem padding_pss_verify_unmasked :
    padding_pss_verify one_octet true false [0x01,0x01,0xbc] 3 [0x00] 1 = some 0 ∧
      ¬Implements one_octet true false [0x00] [0x01,0x01,0xbc] := by
  have accepts : padding_pss_verify one_octet true false [0x01,0x01,0xbc] 3 [0x00] 1 = some 0 := by decide
  refine ⟨accepts,?_⟩
  rintro ⟨ret,runs,zero⟩
  obtain rfl : 0 = ret := Option.some.inj (accepts.symm.trans runs)
  have valid := zero.mp rfl
  rw [show ([0x01,0x01,0xbc] : List UInt8) = [0x01] ++ [0x01] ++ [0xbc] from rfl,
    valid_iff (fun seed len => by rw [← generated_mgf1]; exact mask_length one_octet true seed len) rfl] at valid
  obtain ⟨-,-,len,salt,plain,-⟩ := valid
  have one := (skip_padding_one _).mpr ⟨len,salt,plain⟩
  revert one
  decide

end UBoot.RsaPss
