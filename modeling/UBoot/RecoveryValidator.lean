import UBoot.RecoveryFlash
import UBoot.Buffers

/-!
What the check of a bootloader image in `net/lwip/httpd_recovery.c` accepts: the
vendor's word or erased flash in front, then a firmware image package whose
table of contents names the boot loader and a payload inside the package. The
checks are stated a second time with each byte they take, so that a read beyond
the image shows.
-/
namespace UBoot.Recovery
open UBoot.Memory UBoot.Buffers List Option

theorem or_below {a b : Nat} (k : Nat) (multiple : 2^(k+8) ∣ a) (small : b < 256) : a ||| b <<< k = a+b*2^k := by
  obtain ⟨c,rfl⟩ := multiple
  have below : b*2^k < 2^(k+8) := by
    rw [pow_add,mul_comm]
    exact Nat.mul_lt_mul_of_pos_left small (Nat.two_pow_pos k)
  rw [Nat.shiftLeft_eq]
  exact (Nat.two_pow_add_eq_or_of_lt below c).symm

variable (image p : List UInt8)

theorem byte_at_lt (i : Nat) : byte_at p i < 256 := UInt8.toNat_lt _

theorem byte_at_drop (offset i : Nat) : byte_at (p.drop offset) i = byte_at p (offset+i) := by
  simp [byte_at,getD_eq_getElem?_getD]

theorem le32_bytes :
    recovery_le32_to_cpu p = byte_at p 0+256*(byte_at p 1+256*(byte_at p 2+256*byte_at p 3)) := by
  have bytes := byte_at_lt p
  have last : byte_at p 0 = byte_at p 0 <<< 0 := rfl
  rw [recovery_le32_to_cpu,last,Nat.shiftLeft_eq (byte_at p 3),or_below 16 (by omega) (bytes 2),
    or_below 8 (by omega) (bytes 1),or_below 0 (by omega) (bytes 0),Nat.shiftLeft_zero]
  omega

theorem le64_bytes :
    recovery_le64_to_cpu p = recovery_le32_to_cpu p+2^32*recovery_le32_to_cpu (p.drop 4) := by
  have bytes := byte_at_lt p
  have last : byte_at p 0 = byte_at p 0 <<< 0 := rfl
  rw [le32_bytes,le32_bytes,recovery_le64_to_cpu,last,Nat.shiftLeft_eq (byte_at p 7),or_below 48 (by omega) (bytes 6),
    or_below 40 (by omega) (bytes 5),or_below 32 (by omega) (bytes 4),or_below 24 (by omega) (bytes 3),
    or_below 16 (by omega) (bytes 2),or_below 8 (by omega) (bytes 1),or_below 0 (by omega) (bytes 0),Nat.shiftLeft_zero]
  simp only [byte_at_drop,Nat.reduceAdd]
  omega

/-- The checks again with every byte taken from the image by its position there.
    A read at another position has no value, and neither has a check that comes
    to one. -/
def le32_reads (image : List UInt8) (p : Nat) : Option Nat := do
  let b3 ← image[p+3]?
  let b2 ← image[p+2]?
  let b1 ← image[p+1]?
  let b0 ← image[p]?
  return b3.toNat <<< 24 ||| b2.toNat <<< 16 ||| b1.toNat <<< 8 ||| b0.toNat

def le64_reads (image : List UInt8) (p : Nat) : Option Nat := do
  let b7 ← image[p+7]?
  let b6 ← image[p+6]?
  let b5 ← image[p+5]?
  let b4 ← image[p+4]?
  let b3 ← image[p+3]?
  let b2 ← image[p+2]?
  let b1 ← image[p+1]?
  let b0 ← image[p]?
  return b7.toNat <<< 56 ||| b6.toNat <<< 48 ||| b5.toNat <<< 40 ||| b4.toNat <<< 32 |||
    b3.toNat <<< 24 ||| b2.toNat <<< 16 ||| b1.toNat <<< 8 ||| b0.toNat

/-- Whether the bytes from `p` on all have one value, up to the first other. -/
def region_reads (image : List UInt8) (byte : UInt8) : Nat → Nat → Option Bool
  | _, 0 => some true
  | p, len+1 => image[p]?.bind fun b => if b = byte then region_reads image byte (p+1) len else some false

/-- `memcmp` may read all bytes, also those behind a difference. -/
def memcmp_reads (image : List UInt8) : Nat → List UInt8 → Option Bool
  | _, [] => some true
  | p, u :: uuid => image[p]?.bind fun b => (memcmp_reads image (p+1) uuid).map fun same => decide (b = u) && same

def mtd0_prefix_reads (image : List UInt8) : Option Int :=
  (le32_reads image 0).bind fun prefix_word =>
    if prefix_word = RECOVERY_MTD0_PREFIX_ARM_NOP then some 0
    else if prefix_word = RECOVERY_MTD0_PREFIX_ERASED then
      (region_reads image 0xff 0 RECOVERY_MTD0_FIP_OFFSET).map fun erased => if erased then 0 else -EINVAL
    else some (-EINVAL)

/-- `fip` is where the package begins in the image. -/
def fip_payload_reads (image : List UInt8) (fip fip_size : Nat) (uuid : List UInt8) : Nat → Nat → Option Int
  | 0, _ => some (-EINVAL)
  | fuel+1, toc_offset =>
    if toc_offset+RECOVERY_FIP_TOC_ENTRY_SIZE ≤ fip_size then
      let entry := fip+toc_offset
      (region_reads image 0 entry RECOVERY_FIP_TOC_UUID_SIZE).bind fun zero =>
        if zero then some (-EINVAL)
        else (memcmp_reads image entry uuid).bind fun same =>
          if same then
            (le64_reads image (entry+RECOVERY_FIP_TOC_ENTRY_PAYLOAD_OFFSET)).bind fun payload_offset =>
              (le64_reads image (entry+RECOVERY_FIP_TOC_ENTRY_PAYLOAD_SIZE_OFFSET)).map fun payload_size =>
                if payload_size = 0 then -EINVAL
                else if payload_offset > fip_size ∨ payload_size > fip_size-payload_offset then -EINVAL
                else 0
          else fip_payload_reads image fip fip_size uuid fuel (toc_offset+RECOVERY_FIP_TOC_ENTRY_SIZE)
    else some (-EINVAL)

def mtd0_image_reads (image : List UInt8) : Option Int :=
  if image.length ≠ RECOVERY_MAX_UBOOT_SIZE then some (-EINVAL)
  else (mtd0_prefix_reads image).bind fun ret =>
    if ret ≠ 0 then some ret
    else (le32_reads image RECOVERY_MTD0_FIP_OFFSET).bind fun fip_magic =>
      if fip_magic ≠ RECOVERY_FIP_TOC_HEADER_NAME then some (-EINVAL)
      else (le64_reads image (RECOVERY_MTD0_FIP_OFFSET+RECOVERY_FIP_TOC_FLAGS_OFFSET)).bind fun fip_flags =>
        if (fip_flags >>> 32 &&& 0xffff) &&& RECOVERY_FIP_TOC_FLAG_BYPASS_FWUPGRADE = 0 then some (-EINVAL)
        else fip_payload_reads image RECOVERY_MTD0_FIP_OFFSET (image.length-RECOVERY_MTD0_FIP_OFFSET)
          recovery_fip_uuid_nt_fw (image.length-RECOVERY_MTD0_FIP_OFFSET+1) RECOVERY_FIP_TOC_HEADER_SIZE

theorem byte_read (i : Nat) (inside : i < image.length) :
    ∃ b, image[i]? = some b ∧ b.toNat = byte_at image i := by
  refine ⟨image[i],getElem?_eq_getElem inside,?_⟩
  rw [byte_at,getD_eq_getElem?_getD,getElem?_eq_getElem inside,getD_some]

theorem le32_reads_eq (p : Nat) (inside : p+4 ≤ image.length) :
    le32_reads image p = some (recovery_le32_to_cpu (image.drop p)) := by
  obtain ⟨b3,r3,e3⟩ := byte_read image (p+3) (by omega)
  obtain ⟨b2,r2,e2⟩ := byte_read image (p+2) (by omega)
  obtain ⟨b1,r1,e1⟩ := byte_read image (p+1) (by omega)
  obtain ⟨b0,r0,e0⟩ := byte_read image p (by omega)
  simp [le32_reads,recovery_le32_to_cpu,byte_at_drop,r3,r2,r1,r0,e3,e2,e1,e0]

theorem le64_reads_eq (p : Nat) (inside : p+8 ≤ image.length) :
    le64_reads image p = some (recovery_le64_to_cpu (image.drop p)) := by
  obtain ⟨b7,r7,e7⟩ := byte_read image (p+7) (by omega)
  obtain ⟨b6,r6,e6⟩ := byte_read image (p+6) (by omega)
  obtain ⟨b5,r5,e5⟩ := byte_read image (p+5) (by omega)
  obtain ⟨b4,r4,e4⟩ := byte_read image (p+4) (by omega)
  obtain ⟨b3,r3,e3⟩ := byte_read image (p+3) (by omega)
  obtain ⟨b2,r2,e2⟩ := byte_read image (p+2) (by omega)
  obtain ⟨b1,r1,e1⟩ := byte_read image (p+1) (by omega)
  obtain ⟨b0,r0,e0⟩ := byte_read image p (by omega)
  simp [le64_reads,recovery_le64_to_cpu,byte_at_drop,r7,r6,r5,r4,r3,r2,r1,r0,e7,e6,e5,e4,e3,e2,e1,e0]

theorem take_drop_succ {image : List UInt8} {p : Nat} (inside : p < image.length) (len : Nat) :
    (image.drop p).take (len+1) = image[p] :: (image.drop (p+1)).take len := by
  rw [drop_eq_getElem_cons inside,take_succ_cons]

theorem region_reads_eq (byte : UInt8) (len : Nat) :
    ∀ p, p+len ≤ image.length → region_reads image byte p len = some (((image.drop p).take len).all (· == byte)) := by
  induction len with
  | zero => simp [region_reads]
  | succ len ih =>
    intro p inside
    have here : p < image.length := by omega
    rw [region_reads,getElem?_eq_getElem here,bind_some,take_drop_succ here,all_cons]
    by_cases same : image[p] = byte
    · rw [if_pos same,ih (p+1) (by omega),same,beq_self_eq_true,Bool.true_and]
    · rw [if_neg same,beq_false_of_ne same,Bool.false_and]

theorem memcmp_reads_eq (uuid : List UInt8) :
    ∀ p, p+uuid.length ≤ image.length →
      memcmp_reads image p uuid = some (decide ((image.drop p).take uuid.length = uuid)) := by
  induction uuid with
  | nil => simp [memcmp_reads]
  | cons u uuid ih =>
    intro p inside
    rw [length_cons] at inside
    have here : p < image.length := by omega
    rw [memcmp_reads,getElem?_eq_getElem here,bind_some,ih (p+1) (by omega),length_cons,take_drop_succ here]
    simp [List.cons.injEq]

theorem mtd0_prefix_reads_eq {image : List UInt8} (size : RECOVERY_MTD0_FIP_OFFSET ≤ image.length) :
    mtd0_prefix_reads image = some ( recovery_validate_mtd0_prefix image) := by
  have word : 4 ≤ RECOVERY_MTD0_FIP_OFFSET := by decide
  rw [mtd0_prefix_reads,le32_reads_eq _ _ (by omega),drop_zero,bind_some, recovery_validate_mtd0_prefix]
  split
  · rfl
  · split
    · rw [region_reads_eq _ _ _ 0 (by omega),drop_zero,map_some,recovery_region_is_erased]
    · rfl

theorem fip_payload_reads_eq {image : List UInt8} {fip fip_size : Nat} {uuid : List UInt8}
    (size : image.length = fip+fip_size) (length : uuid.length = RECOVERY_FIP_TOC_UUID_SIZE) (fuel : Nat) :
    ∀ toc_offset, fip_payload_reads image fip fip_size uuid fuel toc_offset =
      some (fip_payload_loop (image.drop fip) fip_size uuid fuel toc_offset) := by
  have fields : RECOVERY_FIP_TOC_UUID_SIZE = 16 ∧ RECOVERY_FIP_TOC_ENTRY_SIZE = 40 ∧
      RECOVERY_FIP_TOC_ENTRY_PAYLOAD_OFFSET = 16 ∧ RECOVERY_FIP_TOC_ENTRY_PAYLOAD_SIZE_OFFSET = 24 := by decide
  obtain ⟨uuid_size,entry_size,offset_at,size_at⟩ := fields
  induction fuel with
  | zero => exact fun _ => rfl
  | succ fuel ih =>
    intro toc_offset
    rw [fip_payload_reads,fip_payload_loop]
    by_cases fits : toc_offset+RECOVERY_FIP_TOC_ENTRY_SIZE ≤ fip_size
    · -- The whole entry is in the package, and all reads are in the entry.
      rw [entry_size] at fits
      rw [entry_size,if_pos fits,if_pos fits]
      dsimp only
      have zero := region_reads_eq image 0 RECOVERY_FIP_TOC_UUID_SIZE (fip+toc_offset) (by omega)
      have same := memcmp_reads_eq image uuid (fip+toc_offset) (by omega)
      have offset := le64_reads_eq image (fip+toc_offset+RECOVERY_FIP_TOC_ENTRY_PAYLOAD_OFFSET) (by omega)
      have payload := le64_reads_eq image (fip+toc_offset+RECOVERY_FIP_TOC_ENTRY_PAYLOAD_SIZE_OFFSET)
        (by omega)
      rw [zero,bind_some,same,bind_some,offset,bind_some,payload,map_some,
        ih,recovery_region_is_zero,drop_drop,drop_drop,drop_drop,length]
      simp only [decide_eq_true_eq]
      split
      · rfl
      · split <;> rfl
    · rw [if_neg fits,if_neg fits]

theorem mtd0_image_reads_eq :
    mtd0_image_reads image = some (recovery_validate_mtd0_bootloader_image image) := by
  rw [mtd0_image_reads,recovery_validate_mtd0_bootloader_image]
  by_cases size : image.length ≠ RECOVERY_MAX_UBOOT_SIZE
  · rw [if_pos size,if_pos size]
  have places : RECOVERY_MAX_UBOOT_SIZE = 0x200000 ∧ RECOVERY_MTD0_FIP_OFFSET = 0x800 ∧
      RECOVERY_FIP_TOC_FLAGS_OFFSET = 8 := by decide
  obtain ⟨max_size,fip_at,flags_at⟩ := places
  have magic := le32_reads_eq image RECOVERY_MTD0_FIP_OFFSET (by omega)
  have flags := le64_reads_eq image (RECOVERY_MTD0_FIP_OFFSET+RECOVERY_FIP_TOC_FLAGS_OFFSET) (by omega)
  rw [if_neg size,if_neg size,mtd0_prefix_reads_eq (by omega),bind_some]
  split
  · rfl
  rw [magic,bind_some]
  dsimp only
  split
  · rfl
  · rw [flags,bind_some,drop_drop]
    split
    · rfl
    · rw [fip_payload_reads_eq (by omega) rfl,recovery_validate_fip_payload]

/-- The name of the entry at an offset of the package, and where it says that
    its payload is. -/
def entry_uuid (fip : List UInt8) (toc_offset : Nat) : List UInt8 := (fip.drop toc_offset).take RECOVERY_FIP_TOC_UUID_SIZE

def entry_payload_offset (fip : List UInt8) (toc_offset : Nat) : Nat :=
  number ((fip.drop (toc_offset+RECOVERY_FIP_TOC_ENTRY_PAYLOAD_OFFSET)).take 8)

def entry_payload_size (fip : List UInt8) (toc_offset : Nat) : Nat :=
  number ((fip.drop (toc_offset+RECOVERY_FIP_TOC_ENTRY_PAYLOAD_SIZE_OFFSET)).take 8)

/-- From the offset on the table has an entry with the name before an entry of
    zeros and before the end of the package, and the first such entry describes
    bytes of the package. -/
def Listed (fip : List UInt8) (uuid : List UInt8) (toc_offset : Nat) : Prop :=
  ∃ n, toc_offset+(n+1)*RECOVERY_FIP_TOC_ENTRY_SIZE ≤ fip.length ∧
    (∀ m < n, entry_uuid fip (toc_offset+m*RECOVERY_FIP_TOC_ENTRY_SIZE) ≠ uuid ∧
      entry_uuid fip (toc_offset+m*RECOVERY_FIP_TOC_ENTRY_SIZE) ≠ List.replicate RECOVERY_FIP_TOC_UUID_SIZE 0) ∧
    entry_uuid fip (toc_offset+n*RECOVERY_FIP_TOC_ENTRY_SIZE) = uuid ∧
    0 < entry_payload_size fip (toc_offset+n*RECOVERY_FIP_TOC_ENTRY_SIZE) ∧
    entry_payload_offset fip (toc_offset+n*RECOVERY_FIP_TOC_ENTRY_SIZE)+
      entry_payload_size fip (toc_offset+n*RECOVERY_FIP_TOC_ENTRY_SIZE) ≤ fip.length

structure Mtd0Image (image : List UInt8) : Prop where
  size : image.length = RECOVERY_MAX_UBOOT_SIZE
  front : number (image.take 4) = RECOVERY_MTD0_PREFIX_ARM_NOP ∨
    image.take RECOVERY_MTD0_FIP_OFFSET = List.replicate RECOVERY_MTD0_FIP_OFFSET 0xff
  magic : number ((image.drop RECOVERY_MTD0_FIP_OFFSET).take 4) = RECOVERY_FIP_TOC_HEADER_NAME
  bypass : (number ((image.drop (RECOVERY_MTD0_FIP_OFFSET+RECOVERY_FIP_TOC_FLAGS_OFFSET)).take 8)).testBit 32 = true
  payload : Listed (image.drop RECOVERY_MTD0_FIP_OFFSET) recovery_fip_uuid_nt_fw RECOVERY_FIP_TOC_HEADER_SIZE

theorem le32_number {p : List UInt8} (inside : 4 ≤ p.length) : recovery_le32_to_cpu p = number (p.take 4) := by
  obtain ⟨b0,b1,b2,b3,rest,rfl⟩ : ∃ b0 b1 b2 b3 rest, p = b0 :: b1 :: b2 :: b3 :: rest := by
    match p, inside with
    | b0 :: b1 :: b2 :: b3 :: rest, _ => exact ⟨b0,b1,b2,b3,rest,rfl⟩
  rw [le32_bytes]
  simp [byte_at,number]

theorem number_append (low high : List UInt8) : number (low ++ high) = number low+256^low.length*number high := by
  induction low with
  | nil => simp [number]
  | cons b low ih =>
    rw [cons_append,number,ih,number,length_cons,pow_succ]
    ring

theorem le64_number {p : List UInt8} (inside : 8 ≤ p.length) : recovery_le64_to_cpu p = number (p.take 8) := by
  have halves : p.take 8 = p.take 4 ++ (p.drop 4).take 4 := by rw [← take_add]
  rw [le64_bytes,le32_number (by omega),le32_number (by rw [length_drop]; omega),halves,number_append,
    length_take,min_eq_left (by omega)]
  rfl

theorem mtd0_prefix_accepts {image : List UInt8} (size : RECOVERY_MTD0_FIP_OFFSET ≤ image.length) :
    recovery_validate_mtd0_prefix image = 0 ↔ number (image.take 4) = RECOVERY_MTD0_PREFIX_ARM_NOP ∨
      image.take RECOVERY_MTD0_FIP_OFFSET = replicate RECOVERY_MTD0_FIP_OFFSET 0xff := by
  set fip := RECOVERY_MTD0_FIP_OFFSET
  have refused : -EINVAL ≠ 0 := by decide
  have places : fip = 0x800 := rfl
  have erased : recovery_region_is_erased image fip = true ↔
      image.take fip = replicate fip 0xff := by
    rw [recovery_region_is_erased,List.all_eq_true,eq_replicate_iff,length_take,min_eq_left size]
    simp only [beq_iff_eq,true_and]
  have word : recovery_le32_to_cpu image = number (image.take 4) := le32_number (by omega)
  rw [ recovery_validate_mtd0_prefix,word]
  by_cases nop : number (image.take 4) = RECOVERY_MTD0_PREFIX_ARM_NOP
  · rw [if_pos nop]
    exact ⟨fun _ => .inl nop,fun _ => rfl⟩
  by_cases start : number (image.take 4) = RECOVERY_MTD0_PREFIX_ERASED
  · rw [if_neg nop,if_pos start,← erased,or_iff_right nop]
    split
    · next all => exact ⟨fun _ => all,fun _ => rfl⟩
    · next other => exact ⟨fun bad => absurd bad refused,fun all => absurd all other⟩
  · have kept : ¬ image.take fip = replicate fip 0xff := by
      intro all
      have first : image.take 4 = replicate 4 0xff := by
        rw [← min_eq_left (show 4 ≤ fip by omega),← take_take,all,take_replicate]
      exact start (by rw [first]; rfl)
    rw [if_neg nop,if_neg start]
    exact ⟨fun bad => absurd bad refused,fun good => (good.elim nop kept).elim⟩

theorem bypass_iff (fip_flags : Nat) :
    (fip_flags >>> 32 &&& 0xffff) &&& RECOVERY_FIP_TOC_FLAG_BYPASS_FWUPGRADE = 0 ↔ fip_flags.testBit 32 ≠ true := by
  have low : 0xffff &&& RECOVERY_FIP_TOC_FLAG_BYPASS_FWUPGRADE = 1 := rfl
  rw [Nat.and_assoc,low,Nat.and_one_is_mod,Nat.shiftRight_eq_div_pow,Nat.testBit_eq_decide_div_mod_eq,ne_eq,
    decide_eq_true_eq]
  omega

/-- The table from its first entry. -/
theorem listed_iff {fip uuid : List UInt8} (toc_offset : Nat) :
    Listed fip uuid toc_offset ↔ toc_offset+RECOVERY_FIP_TOC_ENTRY_SIZE ≤ fip.length ∧
      (entry_uuid fip toc_offset = uuid ∧ 0 < entry_payload_size fip toc_offset ∧
          entry_payload_offset fip toc_offset+entry_payload_size fip toc_offset ≤ fip.length ∨
        entry_uuid fip toc_offset ≠ uuid ∧ entry_uuid fip toc_offset ≠ replicate RECOVERY_FIP_TOC_UUID_SIZE 0 ∧
          Listed fip uuid (toc_offset+RECOVERY_FIP_TOC_ENTRY_SIZE)) := by
  have entry_size : RECOVERY_FIP_TOC_ENTRY_SIZE = 40 := rfl
  have shift : ∀ k, toc_offset+40+k*40 = toc_offset+(k+1)*40 := fun k => by omega
  simp only [Listed,entry_size,shift]
  constructor
  · rintro ⟨n,inside,before,held⟩
    cases n with
    | zero =>
      rw [zero_mul,add_zero] at held
      exact ⟨by omega,.inl held⟩
    | succ n =>
      have first := before 0 (Nat.succ_pos n)
      rw [zero_mul,add_zero] at first
      exact ⟨by omega,.inr ⟨first.1,first.2,n,inside,fun m below => before (m+1) (by omega),held⟩⟩
  · rintro ⟨fits,here | ⟨other,named,n,inside,before,held⟩⟩
    · exact ⟨0,by omega,nofun,by rwa [zero_mul,add_zero]⟩
    · refine ⟨n+1,inside,fun m below => ?_,held⟩
      cases m with
      | zero =>
        rw [zero_mul,add_zero]
        exact ⟨other,named⟩
      | succ m => exact before m (by omega)

/-- The walk over the table. An entry is passed when it has neither name, and
    the fuel is enough for the entries that are left. -/
theorem fip_payload_loop_accepts {fip uuid : List UInt8} (named : uuid ≠ replicate RECOVERY_FIP_TOC_UUID_SIZE 0)
    (fuel : Nat) :
    ∀ toc_offset, fip.length < toc_offset+fuel*RECOVERY_FIP_TOC_ENTRY_SIZE →
      (fip_payload_loop fip fip.length uuid fuel toc_offset = 0 ↔ Listed fip uuid toc_offset) := by
  have refused : -EINVAL ≠ 0 := by decide
  have sizes : RECOVERY_FIP_TOC_ENTRY_SIZE = 40 ∧ RECOVERY_FIP_TOC_UUID_SIZE = 16 ∧
      RECOVERY_FIP_TOC_ENTRY_PAYLOAD_OFFSET = 16 ∧ RECOVERY_FIP_TOC_ENTRY_PAYLOAD_SIZE_OFFSET = 24 := by decide
  obtain ⟨entry_size,uuid_size,offset_at,size_at⟩ := sizes
  induction fuel with
  | zero =>
    intro toc_offset enough
    rw [fip_payload_loop,listed_iff]
    exact ⟨fun bad => absurd bad refused,fun listed => absurd listed.1 (by rw [entry_size]; omega)⟩
  | succ fuel ih =>
    intro toc_offset enough
    rw [fip_payload_loop,listed_iff]
    by_cases fits : toc_offset+RECOVERY_FIP_TOC_ENTRY_SIZE ≤ fip.length
    swap
    · rw [if_neg fits]
      exact ⟨fun bad => absurd bad refused,fun listed => absurd listed.1 fits⟩
    rw [if_pos fits]
    dsimp only
    have length : (entry_uuid fip toc_offset).length = RECOVERY_FIP_TOC_UUID_SIZE := by
      rw [entry_uuid,length_take,length_drop]
      omega
    have zero : recovery_region_is_zero (fip.drop toc_offset) RECOVERY_FIP_TOC_UUID_SIZE = true ↔
        entry_uuid fip toc_offset = replicate RECOVERY_FIP_TOC_UUID_SIZE 0 := by
      rw [recovery_region_is_zero,List.all_eq_true,eq_replicate_iff,← entry_uuid,length]
      simp only [beq_iff_eq,true_and]
    by_cases empty : entry_uuid fip toc_offset = replicate RECOVERY_FIP_TOC_UUID_SIZE 0
    · rw [if_pos (zero.mpr empty)]
      refine ⟨fun bad => absurd bad refused,?_⟩
      rintro ⟨-,⟨found,-⟩ | ⟨-,passed,-⟩⟩
      · exact absurd (found.symm.trans empty) named
      · exact absurd empty passed
    rw [if_neg (mt zero.mp empty),← entry_uuid]
    by_cases found : entry_uuid fip toc_offset = uuid
    · -- The first entry with the name decides.
      have at_ : recovery_le64_to_cpu ((fip.drop toc_offset).drop RECOVERY_FIP_TOC_ENTRY_PAYLOAD_OFFSET) =
          entry_payload_offset fip toc_offset := by
        rw [le64_number (by rw [length_drop,length_drop]; omega),drop_drop,entry_payload_offset]
      have size : recovery_le64_to_cpu ((fip.drop toc_offset).drop RECOVERY_FIP_TOC_ENTRY_PAYLOAD_SIZE_OFFSET) =
          entry_payload_size fip toc_offset := by
        rw [le64_number (by rw [length_drop,length_drop]; omega),drop_drop,entry_payload_size]
      rw [if_pos found,at_,size]
      simp only [fits,found,ne_eq,not_true_eq_false,false_and,or_false,true_and]
      by_cases none_ : entry_payload_size fip toc_offset = 0
      · rw [if_pos none_]
        exact ⟨fun bad => absurd bad refused,fun held => absurd held.1 (by omega)⟩
      rw [if_neg none_]
      by_cases outside : entry_payload_offset fip toc_offset > fip.length ∨
          entry_payload_size fip toc_offset > fip.length-entry_payload_offset fip toc_offset
      · rw [if_pos outside]
        exact ⟨fun bad => absurd bad refused,fun held => absurd held.2 (by omega)⟩
      · rw [if_neg outside]
        exact ⟨fun _ => ⟨by omega,by omega⟩,fun _ => rfl⟩
    · rw [if_neg found,ih _ (by rw [entry_size] at enough ⊢; omega)]
      simp only [fits,found,empty,ne_eq,not_false_eq_true,false_and,false_or,true_and]

/-- The check accepts exactly the images of the format, and each byte it takes
    is a byte of the image. -/
theorem mtd0_image_exact (image : List UInt8) :
    mtd0_image_reads image = some (recovery_validate_mtd0_bootloader_image image) ∧
      (recovery_validate_mtd0_bootloader_image image = 0 ↔ Mtd0Image image) := by
  refine ⟨mtd0_image_reads_eq image,?_⟩
  have refused : -EINVAL ≠ 0 := by decide
  have places : RECOVERY_MAX_UBOOT_SIZE = 0x200000 ∧ RECOVERY_MTD0_FIP_OFFSET = 0x800 ∧
      RECOVERY_FIP_TOC_FLAGS_OFFSET = 8 ∧ RECOVERY_FIP_TOC_ENTRY_SIZE = 40 := by decide
  obtain ⟨max_size,fip_at,flags_at,entry_size⟩ := places
  rw [recovery_validate_mtd0_bootloader_image]
  by_cases size : image.length ≠ RECOVERY_MAX_UBOOT_SIZE
  · rw [if_pos size]
    exact ⟨fun bad => absurd bad refused,fun valid => absurd valid.size size⟩
  · have length : (image.drop RECOVERY_MTD0_FIP_OFFSET).length = image.length-RECOVERY_MTD0_FIP_OFFSET := List.length_drop
    have word := @le32_number (image.drop RECOVERY_MTD0_FIP_OFFSET) (by rw [length]; omega)
    have flags := @le64_number (image.drop (RECOVERY_MTD0_FIP_OFFSET+RECOVERY_FIP_TOC_FLAGS_OFFSET))
      (by rw [List.length_drop]; omega)
    have walk := @fip_payload_loop_accepts (image.drop RECOVERY_MTD0_FIP_OFFSET) recovery_fip_uuid_nt_fw
      (by decide) (image.length-RECOVERY_MTD0_FIP_OFFSET+1) RECOVERY_FIP_TOC_HEADER_SIZE
      (by rw [length,entry_size]; omega)
    have front := @mtd0_prefix_accepts image (by omega)
    rw [length] at walk
    rw [if_neg size]
    by_cases prefix_bad : recovery_validate_mtd0_prefix image ≠ 0
    · rw [if_pos prefix_bad]
      exact ⟨fun good => absurd good prefix_bad,fun valid => absurd (front.mpr valid.front) prefix_bad⟩
    · rw [if_neg prefix_bad]
      dsimp only
      rw [word,List.drop_drop,flags]
      by_cases magic : number ((image.drop RECOVERY_MTD0_FIP_OFFSET).take 4) ≠ RECOVERY_FIP_TOC_HEADER_NAME
      · rw [if_pos magic]
        exact ⟨fun bad => absurd bad refused,fun valid => absurd valid.magic magic⟩
      · rw [if_neg magic]
        split
        · next clear => exact ⟨fun bad => absurd bad refused,fun valid => absurd valid.bypass ((bypass_iff _).mp clear)⟩
        · next set_ =>
          rw [recovery_validate_fip_payload,walk]
          exact ⟨fun listed => ⟨not_not.mp size,front.mp (not_not.mp prefix_bad),not_not.mp magic,
            not_not.mp (mt (bypass_iff _).mpr set_),listed⟩,fun valid => valid.payload⟩

end UBoot.Recovery
