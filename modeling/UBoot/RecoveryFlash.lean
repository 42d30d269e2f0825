import UBoot.RecoveryPosts

/-!
`flash_image` of `net/lwip/httpd_recovery.c` for raw MTD targets. An MTD device is a record of
operations on a world of its own, which may answer as it likes; the fields below the operations are
what the callers rely on. Every operation that is issued is logged. What happens for a UBI target,
and which target firmware goes to, is an argument.
-/
namespace UBoot.Recovery
open UBoot.Memory List

def EIO : Int := 5
def ENOMEM : Int := 12
def EACCES : Int := 13
def ENODEV : Int := 19
def EINVAL : Int := 22
def EFBIG : Int := 27
def ENOSPC : Int := 28
def EROFS : Int := 30
def EOPNOTSUPP : Int := 95
def EUCLEAN : Int := 117

abbrev Errno := { ret : Int // ret < 0 }

def byte_at (p : List UInt8) (i : Nat) : Nat := (p.getD i 0).toNat

def recovery_le32_to_cpu (p : List UInt8) : Nat :=
  byte_at p 3 <<< 24 ||| byte_at p 2 <<< 16 ||| byte_at p 1 <<< 8 ||| byte_at p 0

def recovery_le64_to_cpu (p : List UInt8) : Nat :=
  byte_at p 7 <<< 56 ||| byte_at p 6 <<< 48 ||| byte_at p 5 <<< 40 ||| byte_at p 4 <<< 32 |||
    byte_at p 3 <<< 24 ||| byte_at p 2 <<< 16 ||| byte_at p 1 <<< 8 ||| byte_at p 0

def recovery_region_is_zero (p : List UInt8) (len : Nat) : Bool := (p.take len).all (· == 0)

def recovery_region_is_erased (p : List UInt8) (len : Nat) : Bool := (p.take len).all (· == 0xff)

def RECOVERY_MTD0_PREFIX_ARM_NOP : Nat := 0xe320f000
def RECOVERY_MTD0_PREFIX_ERASED : Nat := 0xffffffff
def RECOVERY_MTD0_FIP_OFFSET : Nat := 0x800
def RECOVERY_FIP_TOC_HEADER_NAME : Nat := 0xaa640001
def RECOVERY_FIP_TOC_HEADER_SIZE : Nat := 0x10
def RECOVERY_FIP_TOC_ENTRY_SIZE : Nat := 0x28
def RECOVERY_FIP_TOC_UUID_SIZE : Nat := 0x10
def RECOVERY_FIP_TOC_ENTRY_PAYLOAD_OFFSET : Nat := 0x10
def RECOVERY_FIP_TOC_ENTRY_PAYLOAD_SIZE_OFFSET : Nat := 0x18
def RECOVERY_FIP_TOC_FLAGS_OFFSET : Nat := 0x8
def RECOVERY_FIP_TOC_FLAG_BYPASS_FWUPGRADE : Nat := 0x1

def recovery_fip_uuid_nt_fw : List UInt8 :=
  [0xd6,0xd0,0xee,0xa7,0xfc,0xea,0xd5,0x4b,0x97,0x82,0x99,0x34,0xf2,0x34,0xb6,0xe4]

def recovery_validate_mtd0_prefix (p : List UInt8) : Int :=
  let prefix_word := recovery_le32_to_cpu p
  if prefix_word = RECOVERY_MTD0_PREFIX_ARM_NOP then 0
  else if prefix_word = RECOVERY_MTD0_PREFIX_ERASED then
    if recovery_region_is_erased p RECOVERY_MTD0_FIP_OFFSET then 0 else -EINVAL
  else -EINVAL

def fip_payload_loop (fip : List UInt8) (fip_size : Nat) (uuid : List UInt8) : Nat → Nat → Int
  | 0, _ => -EINVAL
  | fuel+1, toc_offset =>
    if toc_offset+RECOVERY_FIP_TOC_ENTRY_SIZE ≤ fip_size then
      let entry := fip.drop toc_offset
      if recovery_region_is_zero entry RECOVERY_FIP_TOC_UUID_SIZE then -EINVAL
      else if entry.take RECOVERY_FIP_TOC_UUID_SIZE = uuid then
        let payload_offset := recovery_le64_to_cpu (entry.drop RECOVERY_FIP_TOC_ENTRY_PAYLOAD_OFFSET)
        let payload_size := recovery_le64_to_cpu (entry.drop RECOVERY_FIP_TOC_ENTRY_PAYLOAD_SIZE_OFFSET)
        if payload_size = 0 then -EINVAL
        else if payload_offset > fip_size ∨ payload_size > fip_size-payload_offset then -EINVAL
        else 0
      else fip_payload_loop fip fip_size uuid fuel (toc_offset+RECOVERY_FIP_TOC_ENTRY_SIZE)
    else -EINVAL

/-- An entry takes more than one byte, so the loop ends before its fuel does. -/
def recovery_validate_fip_payload (fip : List UInt8) (fip_size : Nat) (uuid : List UInt8) : Int :=
  fip_payload_loop fip fip_size uuid (fip_size+1) RECOVERY_FIP_TOC_HEADER_SIZE

def recovery_validate_mtd0_bootloader_image (image : List UInt8) : Int :=
  if image.length ≠ RECOVERY_MAX_UBOOT_SIZE then -EINVAL
  else if recovery_validate_mtd0_prefix image ≠ 0 then recovery_validate_mtd0_prefix image
  else
    let fip := image.drop RECOVERY_MTD0_FIP_OFFSET
    let fip_flags := recovery_le64_to_cpu (fip.drop RECOVERY_FIP_TOC_FLAGS_OFFSET)
    let plat_toc_flags := fip_flags >>> 32 &&& 0xffff
    if recovery_le32_to_cpu fip ≠ RECOVERY_FIP_TOC_HEADER_NAME then -EINVAL
    else if plat_toc_flags &&& RECOVERY_FIP_TOC_FLAG_BYPASS_FWUPGRADE = 0 then -EINVAL
    else recovery_validate_fip_payload fip (image.length-RECOVERY_MTD0_FIP_OFFSET) recovery_fip_uuid_nt_fw

section
variable {World : Type}

/-- An MTD device. Each operation returns its error code, what else it reports,
    and the world after it. -/
structure Mtd (World : Type) where
  size : Nat
  erasesize : Nat
  content : World → Nat → UInt8
  block_isbad : World → Nat → Int × World
  block_markbad : World → Nat → Int × World
  unlock : World → Nat → Nat → Int × World
  erase : World → Nat → Nat → Int × World
  /-- Also the number of bytes that were written. -/
  write : World → Nat → List UInt8 → Int × Nat × World
  /-- Also the number of bytes that were read, and the buffer. -/
  read : World → Nat → Nat → Int × Nat × List UInt8 × World
  isbad_keeps : ∀ w addr, content (block_isbad w addr).2 = content w
  read_keeps : ∀ w addr len, content (read w addr len).2.2.2 = content w
  write_apart : ∀ w addr bytes i, i < addr ∨ addr+bytes.length ≤ i → content (write w addr bytes).2.2 i = content w i
  /-- A read that succeeds, if only after corrections, returns what is stored. -/
  read_stored : ∀ w addr len, (read w addr len).1 = 0 ∨ (read w addr len).1 = -EUCLEAN →
    (read w addr len).2.1 = len → (read w addr len).2.2.1 = load (content w) addr len

inductive Op where
  | isbad (addr : Nat) (ret : Int)
  | markbad (addr : Nat)
  | unlock (addr len : Nat)
  | erase (addr len : Nat)
  | write (addr len : Nat)
  | read (addr len : Nat)
  | phase (prog_phase : Int)
  | service
  deriving DecidableEq, Repr

def Op.alters : Op → Bool
  | .erase _ _ => true
  | .write _ _ => true
  | _ => false

structure Session (World : Type) where
  world : World
  log : List Op

def Session.note (s : Session World) (op : Op) : Session World := { s with log := s.log ++ [op] }

def mtd_block_isbad (mtd : Mtd World) (addr : Nat) (s : Session World) : Int × Session World :=
  let answer := mtd.block_isbad s.world addr
  (answer.1,{ world := answer.2, log := s.log ++ [.isbad addr answer.1] })

def recovery_mtd_mark_bad (mtd : Mtd World) (addr : Nat) (s : Session World) : Int × Session World :=
  let answer := mtd.block_markbad s.world addr
  (answer.1,{ world := answer.2, log := s.log ++ [.markbad addr] })

def mtd_unlock (mtd : Mtd World) (addr len : Nat) (s : Session World) : Session World :=
  { world := (mtd.unlock s.world addr len).2, log := s.log ++ [.unlock addr len] }

def mtd_erase (mtd : Mtd World) (addr len : Nat) (s : Session World) : Int × Session World :=
  let answer := mtd.erase s.world addr len
  (answer.1,{ world := answer.2, log := s.log ++ [.erase addr len] })

def mtd_write (mtd : Mtd World) (addr : Nat) (bytes : List UInt8) (s : Session World) : Int × Nat × Session World :=
  let answer := mtd.write s.world addr bytes
  (answer.1,answer.2.1,{ world := answer.2.2, log := s.log ++ [.write addr bytes.length] })

def mtd_read (mtd : Mtd World) (addr len : Nat) (s : Session World) : Int × Nat × List UInt8 × Session World :=
  let answer := mtd.read s.world addr len
  (answer.1,answer.2.1,answer.2.2.1,{ world := answer.2.2.2, log := s.log ++ [.read addr len] })

def recovery_service_runtime (s : Session World) : Session World := s.note .service

def recovery_mtd_is_block_aligned (mtd : Mtd World) (value : Nat) : Bool :=
  mtd.erasesize ≠ 0 && value % mtd.erasesize = 0

def recovery_mtd_validate_region (mtd : Mtd World) (ofs len : Nat) : Int :=
  if mtd.erasesize = 0 then -EINVAL
  else if len = 0 then 0
  else if ofs ≥ mtd.size ∨ len > mtd.size-ofs then -EINVAL
  else if recovery_mtd_is_block_aligned mtd ofs = false ∨ recovery_mtd_is_block_aligned mtd len = false then -EINVAL
  else 0

/-- The values of `addr` in a loop from 0 by eraseblocks while below `len`. -/
def block_addrs (mtd : Mtd World) (len : Nat) : List Nat :=
  (List.range ((len+mtd.erasesize-1)/mtd.erasesize)).map (· * mtd.erasesize)

def good_blocks_loop (mtd : Mtd World) (ofs : Nat) : List Nat → Nat → Session World → Int × Session World
  | [], bad, s => (if bad = 0 then 0 else - EIO,s)
  | addr :: rest, bad, s =>
    let (ret,s) := mtd_block_isbad mtd (ofs+addr) s
    if ret < 0 then (ret,s)
    else good_blocks_loop mtd ofs rest (if ret > 0 then bad+1 else bad) s

def recovery_mtd_require_good_blocks (mtd : Mtd World) (ofs len : Nat) (s : Session World) : Int × Session World :=
  let ret := recovery_mtd_validate_region mtd ofs len
  if ret ≠ 0 then (ret,s) else good_blocks_loop mtd ofs (block_addrs mtd len) 0 s

/-- The attempts to erase one block: a locked block is unlocked after each. -/
def erase_tries (mtd : Mtd World) (addr : Nat) : Nat → Session World → Int × Session World
  | 0, s => (0,s)
  | tries+1, s =>
    let (ret,s) := mtd_erase mtd addr mtd.erasesize s
    if ret = 0 then (ret,s)
    else if ret = -EROFS ∨ ret = -EACCES then
      let s := mtd_unlock mtd addr mtd.erasesize s
      if tries = 0 then (ret,s) else erase_tries mtd addr tries s
    else (ret,s)

def erase_loop (mtd : Mtd World) (ofs : Nat) : List Nat → Session World → Int × Session World
  | [], s => (0,s)
  | addr :: rest, s =>
    let (ret,s) := mtd_block_isbad mtd (ofs+addr) s
    if ret < 0 then (ret,s)
    else if ret > 0 then erase_loop mtd ofs rest (recovery_service_runtime s)
    else
      let (ret,s) := erase_tries mtd (ofs+addr) 2 s
      if ret ≠ 0 then
        let (marked,s) := recovery_mtd_mark_bad mtd (ofs+addr) s
        if marked ≠ 0 then (ret,s) else erase_loop mtd ofs rest (recovery_service_runtime s)
      else erase_loop mtd ofs rest (recovery_service_runtime s)

def recovery_erase_mtd_region (mtd : Mtd World) (ofs len : Nat) (s : Session World) : Int × Session World :=
  if len = 0 then (0,s)
  else
    let ret := recovery_mtd_validate_region mtd ofs len
    if ret ≠ 0 then (ret,s)
    else erase_loop mtd ofs (block_addrs mtd len) (mtd_unlock mtd ofs len s)

def recovery_mtd_verify_write (mtd : Mtd World) (addr : Nat) (src : List UInt8) (s : Session World) :
    Int × Session World :=
  let (ret,retlen,buf,s) := mtd_read mtd addr src.length s
  if (ret ≠ 0 ∧ ret ≠ -EUCLEAN) ∨ retlen ≠ src.length then (if ret ≠ 0 then ret else - EIO,s)
  else if buf ≠ src then (- EIO,s)
  else (0,s)

/-- `written` is of type `u32`. -/
def write_loop (mtd : Mtd World) (ofs : Nat) (image : List UInt8) (verify strict : Bool) :
    List Nat → Nat → Session World → Int × Session World
  | [], written, s => (if written < image.length then -ENOSPC else 0,s)
  | addr :: rest, written, s =>
    if written < image.length then
      let bytes := (image.drop written).take (min mtd.erasesize (image.length-written))
      let (ret,s) := mtd_block_isbad mtd (ofs+addr) s
      if ret < 0 then (ret,s)
      else if ret > 0 then
        if strict then (- EIO,s)
        else write_loop mtd ofs image verify strict rest written (recovery_service_runtime s)
      else
        let (ret,retlen,s) := mtd_write mtd (ofs+addr) bytes s
        if ret ≠ 0 ∨ retlen ≠ bytes.length then
          let err := if ret = 0 then - EIO else ret
          if strict then (err,s)
          else
            let (marked,s) := recovery_mtd_mark_bad mtd (ofs+addr) s
            if marked ≠ 0 then (err,s)
            else write_loop mtd ofs image verify strict rest written (recovery_service_runtime s)
        else
          let (ret,s) := if verify then recovery_mtd_verify_write mtd (ofs+addr) bytes s else (0,s)
          if ret ≠ 0 then
            if strict then (ret,s)
            else
              let (marked,s) := recovery_mtd_mark_bad mtd (ofs+addr) s
              if marked ≠ 0 then (ret,s)
              else write_loop mtd ofs image verify strict rest written (recovery_service_runtime s)
          else write_loop mtd ofs image verify strict rest ((written+bytes.length)%2^32) (recovery_service_runtime s)
    else (0,s)

/-- `memory` says whether the buffer to read back into could be allocated. -/
def recovery_write_mtd_region (mtd : Mtd World) (ofs region_len : Nat) (image : List UInt8) (memory verify strict : Bool)
    (s : Session World) : Int × Session World :=
  if image.length = 0 then (0,s)
  else
    let ret := recovery_mtd_validate_region mtd ofs region_len
    if ret ≠ 0 then (ret,s)
    else if verify && !memory then (-ENOMEM,s)
    else write_loop mtd ofs image verify strict (block_addrs mtd region_len) 0 s

inductive Backend where
  | RECOVERY_BACKEND_MTD
  | RECOVERY_BACKEND_UBI
  deriving DecidableEq, Repr

structure RecoveryTarget (World : Type) where
  backend : Backend
  mtd : Option (Mtd World)
  ofs : Nat
  limit : Nat

/-- What is there to flash: the environment, the devices by name or the error
    of looking one up, what firmware resolves to, and what is done for a UBI
    target. -/
structure Setup (World : Type) where
  env_get : String → Option String
  env_get_hex : String → Nat
  get_mtd_device_nm : String → Except Errno (Mtd World)
  resolve_firmware : Except Errno (RecoveryTarget World)
  flash_ubi : RecoveryTarget World → List UInt8 → Session World → Int × Session World
  memory : Bool

def recovery_default_target : Target → String
  | .TARGET_FIRMWARE => "fit"
  | .TARGET_UBOOT => "bootloader"
  | .TARGET_UENV => "uenv"
  | .TARGET_DSD => "dsd"

def recovery_target_env : Target → String
  | .TARGET_FIRMWARE => "recovery_mtd"
  | .TARGET_UBOOT => "recovery_mtd_uboot"
  | .TARGET_UENV => "recovery_mtd_uenv"
  | .TARGET_DSD => "recovery_mtd_dsd"

def recovery_size_env : Target → String
  | .TARGET_FIRMWARE => "recovery_size"
  | .TARGET_UBOOT => "recovery_size_uboot"
  | .TARGET_UENV => "recovery_size_uenv"
  | .TARGET_DSD => "recovery_size_dsd"

def recovery_target_size_cap (setup : Setup World) (tgt : Target) : Nat :=
  let size_cap := setup.env_get_hex (recovery_size_env tgt)
  if tgt = .TARGET_UENV ∨ tgt = .TARGET_DSD then RECOVERY_RAW_PART_SIZE
  else if tgt = .TARGET_UBOOT ∧ (size_cap = 0 ∨ size_cap > RECOVERY_MAX_UBOOT_SIZE) then RECOVERY_MAX_UBOOT_SIZE
  else size_cap

def resolve_raw_part (setup : Setup World) (tgt : Target) : Except Errno (RecoveryTarget World) :=
  match setup.get_mtd_device_nm (recovery_default_target tgt) with
  | .error err => .error err
  | .ok mtd =>
    if mtd.size ≠ RECOVERY_RAW_PART_SIZE then .error ⟨-EINVAL,by decide⟩
    else .ok ⟨.RECOVERY_BACKEND_MTD,some mtd,0,mtd.size⟩

def resolve_bootloader (setup : Setup World) : Except Errno (RecoveryTarget World) :=
  let tgt := Target.TARGET_UBOOT
  let name := (setup.env_get (recovery_target_env tgt)).getD (recovery_default_target tgt)
  if name ≠ "bootloader" then .error ⟨-EINVAL,by decide⟩
  else
    match setup.get_mtd_device_nm "bootloader" with
    | .error err => .error err
    | .ok mtd =>
      let size_cap := recovery_target_size_cap setup tgt
      .ok ⟨.RECOVERY_BACKEND_MTD,some mtd,0,if size_cap ≠ 0 ∧ mtd.size > size_cap then size_cap else mtd.size⟩

def recovery_resolve_target (setup : Setup World) : Target → Except Errno (RecoveryTarget World)
  | .TARGET_FIRMWARE => setup.resolve_firmware
  | .TARGET_UBOOT => resolve_bootloader setup
  | .TARGET_UENV => resolve_raw_part setup .TARGET_UENV
  | .TARGET_DSD => resolve_raw_part setup .TARGET_DSD

def outside_region (target : RecoveryTarget World) : Bool :=
  match target.mtd with
  | none => true
  | some mtd =>
    target.backend ≠ .RECOVERY_BACKEND_MTD || target.ofs ≠ 0 || target.limit ≠ RECOVERY_MAX_UBOOT_SIZE ||
      decide (target.limit > mtd.size)

def fail (ret : Int) (s : Session World) : Int × Session World := (ret,s.note (.phase (-1)))

def erase_and_write (memory verify strict_layout : Bool) (mtd : Mtd World) (ofs limit : Nat) (image : List UInt8)
    (s : Session World) : Int × Session World :=
  let (ret,s) := recovery_erase_mtd_region mtd ofs limit (s.note (.phase 1))
  if ret ≠ 0 then fail ret s
  else
    let (ret,s) := recovery_write_mtd_region mtd ofs limit image memory verify strict_layout (s.note (.phase 2))
    if ret ≠ 0 then fail ret s else (0,s.note (.phase 3))

/-- A raw target, which is scanned first where the offsets matter. -/
def flash_mtd (setup : Setup World) (current_target : Target) (mtd : Mtd World) (ofs limit : Nat) (image : List UInt8)
    (s : Session World) : Int × Session World :=
  let verify := current_target = .TARGET_UBOOT || current_target = .TARGET_UENV || current_target = .TARGET_DSD
  let strict_layout := decide (current_target = .TARGET_UBOOT)
  if strict_layout then
    let (ret,s) := recovery_mtd_require_good_blocks mtd ofs limit s
    if ret ≠ 0 then fail ret s else erase_and_write setup.memory verify strict_layout mtd ofs limit image s
  else erase_and_write setup.memory verify strict_layout mtd ofs limit image s

def flash_image (setup : Setup World) (current_target : Target) (image : List UInt8) (s : Session World) :
    Int × Session World :=
  let exact_ := recovery_target_exact_size current_target
  let valid := if current_target = .TARGET_UBOOT then recovery_validate_mtd0_bootloader_image image else 0
  if image.length = 0 then fail (-EINVAL) s
  else if exact_ ≠ 0 ∧ image.length ≠ exact_ then fail (-EINVAL) s
  else if valid ≠ 0 then fail valid s
  else
    match recovery_resolve_target setup current_target with
    | .error ret => fail ret.val s
    | .ok target =>
      if current_target = .TARGET_UBOOT ∧ outside_region target = true then fail (-EINVAL) s
      else
        match target.backend, target.mtd with
        | .RECOVERY_BACKEND_MTD, some mtd =>
          if image.length > target.limit then fail (-EFBIG) s
          else flash_mtd setup current_target mtd target.ofs target.limit image s
        | _, _ => setup.flash_ubi target image s

theorem isbad_spec {mtd : Mtd World} {addr : Nat} {s s' : Session World} {ret : Int}
    (answer : mtd_block_isbad mtd addr s = (ret,s')) :
    mtd.content s'.world = mtd.content s.world ∧ s'.log = s.log ++ [.isbad addr ret] := by
  obtain ⟨rfl,rfl⟩ := Prod.mk.inj answer
  exact ⟨mtd.isbad_keeps s.world addr,rfl⟩

theorem validate_region_spec {mtd : Mtd World} {ofs len : Nat} (valid : recovery_mtd_validate_region mtd ofs len = 0)
    (some_ : len ≠ 0) :
    0 < mtd.erasesize ∧ ofs+len ≤ mtd.size ∧ mtd.erasesize ∣ ofs ∧ mtd.erasesize ∣ len := by
  have refused : -EINVAL ≠ 0 := by decide
  rw [recovery_mtd_validate_region] at valid
  by_cases erasable : mtd.erasesize = 0
  · rw [if_pos erasable] at valid
    exact absurd valid refused
  rw [if_neg erasable,if_neg some_] at valid
  split at valid
  · exact absurd valid refused
  · rename_i inside
    split at valid
    · exact absurd valid refused
    · rename_i aligned
      simp only [recovery_mtd_is_block_aligned,not_or,Bool.not_eq_false,Bool.and_eq_true,decide_eq_true_eq] at aligned
      exact ⟨by omega,by omega,Nat.dvd_of_mod_eq_zero aligned.1.2,Nat.dvd_of_mod_eq_zero aligned.2.2⟩

variable {bytes : List UInt8} {len : Nat} {verify : Bool} (mtd : Mtd World) (ofs addr : Nat)
    (addrs : List Nat) (s : Session World)

/-- In a valid region the loops visit every block once. -/
theorem block_addrs_eq {mtd : Mtd World} (pos : 0 < mtd.erasesize) (aligned : mtd.erasesize ∣ len) :
    block_addrs mtd len = (range' 0 (len/mtd.erasesize)).map (· * mtd.erasesize) := by
  obtain ⟨k,rfl⟩ := aligned
  have count : (mtd.erasesize*k+mtd.erasesize-1)/mtd.erasesize = mtd.erasesize*k/mtd.erasesize := by
    rw [Nat.mul_div_cancel_left k pos]
    apply Nat.div_eq_of_lt_le
    · rw [mul_comm]
      omega
    · rw [Nat.succ_mul,mul_comm]
      omega
  rw [block_addrs,count,range_eq_range']

theorem block_addrs_zero : block_addrs mtd 0 = [] := by
  rcases Nat.eq_zero_or_pos mtd.erasesize with zero | pos
  · simp [block_addrs,zero]
  · rw [block_addrs,zero_add,Nat.div_eq_of_lt (by omega)]
    rfl

theorem good_blocks_loop_asks (bad : Nat) (s : Session World) :
    ∃ ops, (good_blocks_loop mtd ofs addrs bad s).2.log = s.log ++ ops ∧ ∀ op ∈ ops, op.alters = false := by
  induction addrs generalizing bad s with
  | nil => exact ⟨[],by simp [good_blocks_loop],by simp⟩
  | cons addr rest ih =>
    rw [good_blocks_loop]
    cases answer : mtd_block_isbad mtd (ofs+addr) s with
    | mk ret s1 =>
      obtain ⟨-,asked⟩ := isbad_spec answer
      by_cases failed : ret < 0
      · simp only [if_pos failed]
        exact ⟨[.isbad (ofs+addr) ret],asked,by simp [Op.alters]⟩
      · simp only [if_neg failed]
        obtain ⟨ops,logged,harmless⟩ := ih (if ret > 0 then bad+1 else bad) s1
        refine ⟨.isbad (ofs+addr) ret :: ops,by rw [logged,asked]; simp,?_⟩
        rintro op (_ | ⟨_,later⟩)
        · rfl
        · exact harmless op later

theorem good_blocks_loop_good {mtd : Mtd World} {ofs : Nat} {addrs : List Nat} {bad : Nat} {s : Session World}
    (good : (good_blocks_loop mtd ofs addrs bad s).1 = 0) :
    bad = 0 ∧ (good_blocks_loop mtd ofs addrs bad s).2.log = s.log ++ addrs.map (fun addr => .isbad (ofs+addr) 0) := by
  induction addrs generalizing bad s with
  | nil =>
    have failed : - EIO ≠ 0 := by decide
    by_cases none_ : bad = 0
    · exact ⟨none_,by simp [good_blocks_loop]⟩
    · simp only [good_blocks_loop,none_,if_false] at good
      exact absurd good failed
  | cons addr rest ih =>
    rw [good_blocks_loop] at good ⊢
    cases answer : mtd_block_isbad mtd (ofs+addr) s with
    | mk ret s1 =>
      obtain ⟨-,asked⟩ := isbad_spec answer
      rw [answer] at good
      by_cases failed : ret < 0
      · simp only [if_pos failed] at good
        omega
      · simp only [if_neg failed] at good ⊢
        obtain ⟨none_,logged⟩ := ih good
        have clear : ret = 0 := by
          split at none_ <;> omega
        subst clear
        exact ⟨by simpa using none_,by rw [logged,asked]; simp⟩

theorem service_world : (recovery_service_runtime s).world = s.world := rfl

/-- A read-back that succeeds compared what is stored. -/
theorem verify_write_spec {mtd : Mtd World} {addr : Nat} {src : List UInt8} {s s' : Session World}
    (verified : recovery_mtd_verify_write mtd addr src s = (0,s')) :
    mtd.content s'.world = mtd.content s.world ∧ load (mtd.content s.world) addr src.length = src := by
  have failed : - EIO ≠ 0 := by decide
  rw [recovery_mtd_verify_write,mtd_read] at verified
  dsimp only at verified
  split at verified
  · rename_i refused
    have code := (Prod.mk.inj verified).1
    split at code
    · rename_i error
      exact absurd code error
    · exact absurd code failed
  · rename_i accepted
    split at verified
    · exact absurd (Prod.mk.inj verified).1 failed
    · rename_i same
      obtain ⟨-,rfl⟩ := Prod.mk.inj verified
      simp only [not_or,not_and_or,not_not] at accepted
      have stored := mtd.read_stored s.world addr src.length accepted.1 accepted.2
      exact ⟨mtd.read_keeps s.world addr src.length,stored.symm.trans (not_not.mp same)⟩

/-- A write beyond the part that was written before leaves that part alone. -/
theorem write_keeps {mtd : Mtd World} {ofs written : Nat} {s s' : Session World}
    {ret : Int} {retlen : Nat} (wrote : mtd_write mtd (ofs+written) bytes s = (ret,retlen,s')) :
    load (mtd.content s'.world) ofs written = load (mtd.content s.world) ofs written := by
  obtain ⟨-,wrote⟩ := Prod.mk.inj wrote
  obtain ⟨-,rfl⟩ := Prod.mk.inj wrote
  apply load_congr
  intro i inside
  exact mtd.write_apart s.world (ofs+written) bytes (ofs+i) (.inl (by omega))

def Stores (mtd : Mtd World) : Prop :=
  ∀ w addr bytes, (mtd.write w addr bytes).1 = 0 → (mtd.write w addr bytes).2.1 = bytes.length →
    load (mtd.content (mtd.write w addr bytes).2.2) addr bytes.length = bytes

/-- A block that was written and passed the read-back, if there is one. -/
theorem stored_spec {mtd : Mtd World} {verify : Bool} (sound : verify = true ∨ Stores mtd) {addr retlen : Nat}
    {bytes : List UInt8} {s s2 s3 : Session World} (wrote : mtd_write mtd addr bytes s = (0,retlen,s2))
    (whole : retlen = bytes.length)
    (checked : (if verify = true then recovery_mtd_verify_write mtd addr bytes s2 else (0,s2)) = (0,s3)) :
    mtd.content s3.world = mtd.content s2.world ∧ load (mtd.content s2.world) addr bytes.length = bytes := by
  cases verify with
  | true =>
    rw [if_pos rfl] at checked
    exact verify_write_spec checked
  | false =>
    rw [if_neg (by decide)] at checked
    obtain ⟨-,rfl⟩ := Prod.mk.inj checked
    obtain ⟨good,wrote⟩ := Prod.mk.inj wrote
    obtain ⟨length,rfl⟩ := Prod.mk.inj wrote
    rcases sound with on | stores
    · cases on
    · exact ⟨rfl,stores s.world addr bytes good (length.trans whole)⟩

/-- What the write of a block returns, and the read-back after it, if there is one. -/
def block_wrote (mtd : Mtd World) (addr : Nat) (bytes : List UInt8) (s : Session World) : Int × Nat × Session World :=
  mtd_write mtd addr bytes (mtd_block_isbad mtd addr s).2

def block_checked (mtd : Mtd World) (addr : Nat) (bytes : List UInt8) (verify : Bool) (s : Session World) : Int × Session World :=
  if verify = true then recovery_mtd_verify_write mtd addr bytes (block_wrote mtd addr bytes s).2.2
  else (0,(block_wrote mtd addr bytes s).2.2)

/-- How a round of the write loop ends: with an error, with the block passed since
    it is bad or was marked so, or with the bytes in it. `next` is the loop over
    the blocks behind. -/
inductive WriteRound (mtd : Mtd World) (addr : Nat) (bytes : List UInt8) (verify strict : Bool) (written : Nat)
    (s : Session World) (next : Nat → Session World → Int × Session World) : Int × Session World → Prop where
  | stopped {code : Int} {t : Session World} (failed : code ≠ 0)
      (among : t ∈ [(mtd_block_isbad mtd addr s).2,(block_wrote mtd addr bytes s).2.2,(block_checked mtd addr bytes verify s).2,
        (recovery_mtd_mark_bad mtd addr (block_wrote mtd addr bytes s).2.2).2,
        (recovery_mtd_mark_bad mtd addr (block_checked mtd addr bytes verify s).2).2]) :
      WriteRound mtd addr bytes verify strict written s next (code,t)
  | bad (status : 0 < (mtd_block_isbad mtd addr s).1) (lenient : strict = false) :
      WriteRound mtd addr bytes verify strict written s next
        (next written (recovery_service_runtime (mtd_block_isbad mtd addr s).2))
  | marked {t : Session World} (good : (mtd_block_isbad mtd addr s).1 = 0)
      (among : t ∈ [(block_wrote mtd addr bytes s).2.2,(block_checked mtd addr bytes verify s).2]) (lenient : strict = false)
      (status : (recovery_mtd_mark_bad mtd addr t).1 = 0) :
      WriteRound mtd addr bytes verify strict written s next
        (next written (recovery_service_runtime (recovery_mtd_mark_bad mtd addr t).2))
  | stored (good : (mtd_block_isbad mtd addr s).1 = 0) (accepted : (block_wrote mtd addr bytes s).1 = 0)
      (whole : (block_wrote mtd addr bytes s).2.1 = bytes.length) (verified : (block_checked mtd addr bytes verify s).1 = 0) :
      WriteRound mtd addr bytes verify strict written s next
        (next ((written+bytes.length)%2^32) (recovery_service_runtime (block_checked mtd addr bytes verify s).2))

theorem marked_round {mtd : Mtd World} {addr : Nat} {verify strict : Bool} {written : Nat}
    {s t : Session World} {next : Nat → Session World → Int × Session World} {code : Int}
    (good : (mtd_block_isbad mtd addr s).1 = 0)
    (among : t ∈ [(block_wrote mtd addr bytes s).2.2,(block_checked mtd addr bytes verify s).2]) (failed : code ≠ 0) :
    WriteRound mtd addr bytes verify strict written s next
      (if strict = true then (code,t)
      else if (recovery_mtd_mark_bad mtd addr t).1 ≠ 0 then (code,(recovery_mtd_mark_bad mtd addr t).2)
      else next written (recovery_service_runtime (recovery_mtd_mark_bad mtd addr t).2)) := by
  have places : t = (block_wrote mtd addr bytes s).2.2 ∨ t = (block_checked mtd addr bytes verify s).2 := by simpa using among
  by_cases kept : strict = true
  · rw [if_pos kept]
    refine .stopped failed ?_
    rcases places with rfl | rfl <;> simp
  · rw [if_neg kept]
    by_cases unmarked : (recovery_mtd_mark_bad mtd addr t).1 ≠ 0
    · rw [if_pos unmarked]
      refine .stopped failed ?_
      rcases places with rfl | rfl <;> simp
    · rw [if_neg unmarked]
      exact .marked good among (by simpa using kept) (not_not.mp unmarked)

theorem write_loop_round {mtd : Mtd World} {ofs : Nat} {image : List UInt8} {verify strict : Bool} {addr : Nat}
    {rest : List Nat} {written : Nat} {s : Session World} (more : written < image.length) :
    WriteRound mtd (ofs+addr) ((image.drop written).take (min mtd.erasesize (image.length-written))) verify strict written s
      (write_loop mtd ofs image verify strict rest) (write_loop mtd ofs image verify strict (addr :: rest) written s) := by
  have failed : - EIO ≠ 0 := by decide
  rw [write_loop,if_pos more]
  dsimp only
  generalize (image.drop written).take (min mtd.erasesize (image.length-written)) = bytes
  by_cases negative : (mtd_block_isbad mtd (ofs+addr) s).1 < 0
  · rw [if_pos negative]
    exact .stopped (by omega) (by simp)
  rw [if_neg negative]
  by_cases bad : (mtd_block_isbad mtd (ofs+addr) s).1 > 0
  · rw [if_pos bad]
    by_cases kept : strict = true
    · rw [if_pos kept]
      exact .stopped failed (by simp)
    · rw [if_neg kept]
      exact .bad bad (by simpa using kept)
  rw [if_neg bad]
  have good : (mtd_block_isbad mtd (ofs+addr) s).1 = 0 := by omega
  by_cases unwritten : (block_wrote mtd (ofs+addr) bytes s).1 ≠ 0 ∨ (block_wrote mtd (ofs+addr) bytes s).2.1 ≠ bytes.length
  · have error : (if (block_wrote mtd (ofs+addr) bytes s).1 = 0 then - EIO else (block_wrote mtd (ofs+addr) bytes s).1) ≠ 0 := by
      by_cases short : (block_wrote mtd (ofs+addr) bytes s).1 = 0
      · rw [if_pos short]
        exact failed
      · rw [if_neg short]
        exact short
    rw [block_wrote] at unwritten error
    rw [if_pos unwritten]
    exact marked_round good (by simp [block_wrote]) error
  · have clean := not_or.mp unwritten
    rw [block_wrote] at unwritten
    rw [if_neg unwritten]
    by_cases mismatch : (block_checked mtd (ofs+addr) bytes verify s).1 ≠ 0
    · rw [block_checked,block_wrote] at mismatch
      rw [if_pos mismatch]
      exact marked_round good (by simp [block_checked,block_wrote]) mismatch
    · have verified := not_not.mp mismatch
      rw [block_checked,block_wrote] at mismatch
      rw [if_neg mismatch]
      exact .stored good (not_not.mp clean.1) (not_not.mp clean.2) verified

theorem block_stored {mtd : Mtd World} (sound : verify = true ∨ Stores mtd) {ofs written : Nat} {s : Session World} (accepted : (block_wrote mtd (ofs+written) bytes s).1 = 0)
    (whole : (block_wrote mtd (ofs+written) bytes s).2.1 = bytes.length)
    (verified : (block_checked mtd (ofs+written) bytes verify s).1 = 0) :
    load (mtd.content (block_checked mtd (ofs+written) bytes verify s).2.world) ofs (written+bytes.length) =
      load (mtd.content s.world) ofs written ++ bytes := by
  set place := ofs+written
  have wrote : mtd_write mtd place bytes (mtd_block_isbad mtd place s).2 =
      (0,(block_wrote mtd place bytes s).2) := Prod.ext accepted rfl
  have checked : (if verify = true then
      recovery_mtd_verify_write mtd place bytes (block_wrote mtd place bytes s).2.2
      else (0,(block_wrote mtd place bytes s).2.2)) = (0,(block_checked mtd place bytes verify s).2) :=
    Prod.ext verified rfl
  obtain ⟨same,stored⟩ := stored_spec sound wrote whole checked
  have kept := write_keeps wrote
  have asked : mtd.content (mtd_block_isbad mtd place s).2.world = mtd.content s.world :=
    mtd.isbad_keeps s.world place
  rw [same,load_append,stored,kept,asked]

/-- The count of what is written never comes to 4 GiB, so that the loop does
    not end with success. -/
theorem write_loop_endless {mtd : Mtd World} {ofs : Nat} {image : List UInt8} {verify strict : Bool}
    (long : 2^32 ≤ image.length) (addrs : List Nat) :
    ∀ (written : Nat) (s : Session World), written < 2^32 →
      (write_loop mtd ofs image verify strict addrs written s).1 ≠ 0 := by
  induction addrs with
  | nil =>
    intro written s low
    rw [write_loop,if_pos (by omega)]
    exact (by decide : -ENOSPC ≠ 0)
  | cons addr rest ih =>
    intro written s low
    have round := @write_loop_round World mtd ofs image verify strict addr rest written s (by omega)
    generalize write_loop mtd ofs image verify strict (addr :: rest) written s = r at round ⊢
    cases round with
    | stopped failed => exact failed
    | bad | marked => exact ih _ _ low
    | stored => exact ih _ _ (Nat.mod_lt _ (by decide))

/-- The strict write: each block lands where the one before it ends, and what
    was stored stays. The induction is on the blocks to come, of which the first
    is the one at `written`. -/
theorem write_loop_strict {mtd : Mtd World} {ofs : Nat} {image : List UInt8}
    (sound : verify = true ∨ Stores mtd) (short : image.length < 2^32) (n : Nat) :
    ∀ (k written : Nat) (s : Session World), (written < image.length → written = k*mtd.erasesize) →
      written ≤ image.length → load (mtd.content s.world) ofs written = image.take written →
      ∀ s', write_loop mtd ofs image verify true ((range' k n).map (· * mtd.erasesize)) written s = (0,s') →
        load (mtd.content s'.world) ofs image.length = image := by
  -- Once everything is written, the loop ends with success.
  have done : ∀ (written : Nat) (s : Session World), written ≤ image.length → ¬ written < image.length →
      load (mtd.content s.world) ofs written = image.take written →
      load (mtd.content s.world) ofs image.length = image := by
    intro written s low high held
    obtain rfl : written = image.length := by omega
    rw [held,take_length]
  induction n with
  | zero =>
    intro k written s _ low held s' ends
    simp only [range'_zero,map_nil,write_loop] at ends
    obtain ⟨code,rfl⟩ := Prod.mk.inj ends
    split at code
    · exact absurd code (by decide)
    · rename_i all
      exact done written s low all held
  | succ n ih =>
    intro k written s place low held s' ends
    rw [range'_succ,map_cons] at ends
    by_cases more : written < image.length
    · obtain rfl := place more
      have length : ((image.drop (k*mtd.erasesize)).take (min mtd.erasesize (image.length-k*mtd.erasesize))).length =
          min mtd.erasesize (image.length-k*mtd.erasesize) := by simp
      have round := @write_loop_round World mtd ofs image verify true (k*mtd.erasesize)
        ((range' (k+1) n).map (· * mtd.erasesize)) (k*mtd.erasesize) s more
      rw [ends] at round
      generalize ended : ((0,s') : Int × Session World) = r at round
      cases round with
      | stopped failed => exact absurd (Prod.mk.inj ended).1.symm failed
      | bad _ lenient | marked _ _ lenient => cases lenient
      | stored _ accepted whole verified =>
        have stored := block_stored sound accepted whole verified
        rw [Nat.mod_eq_of_lt (by omega)] at ended
        refine ih (k+1) _ _ ?_ ?_ ?_ s' ended.symm
        · intro still
          rw [Nat.succ_mul]
          omega
        · omega
        · rw [service_world,stored,held,take_add,length]
    · rw [write_loop,if_neg more] at ends
      obtain ⟨-,rfl⟩ := Prod.mk.inj ends
      exact done written s low more held

theorem isbad_extends :
    s.log <+: (mtd_block_isbad mtd addr s).2.log := ⟨_,rfl⟩

theorem markbad_extends :
    s.log <+: (recovery_mtd_mark_bad mtd addr s).2.log := ⟨_,rfl⟩

theorem write_extends (bytes : List UInt8) (s : Session World) :
    s.log <+: (mtd_write mtd addr bytes s).2.2.log := ⟨_,rfl⟩

theorem service_extends : s.log <+: (recovery_service_runtime s).log := ⟨_,rfl⟩

theorem verify_extends (src : List UInt8) (s : Session World) :
    s.log <+: (recovery_mtd_verify_write mtd addr src s).2.log := by
  rw [recovery_mtd_verify_write]
  dsimp only
  split
  · exact ⟨_,rfl⟩
  · split
    · exact ⟨_,rfl⟩
    · exact ⟨_,rfl⟩

theorem erase_tries_extends (addr tries : Nat) (s : Session World) :
    s.log <+: (erase_tries mtd addr tries s).2.log := by
  induction tries generalizing s with
  | zero => exact prefix_rfl
  | succ tries ih =>
    rw [erase_tries]
    have tried : s.log <+: (mtd_erase mtd addr mtd.erasesize s).2.log := ⟨_,rfl⟩
    have unlocked : s.log <+: (mtd_unlock mtd addr mtd.erasesize (mtd_erase mtd addr mtd.erasesize s).2).log :=
      tried.trans ⟨_,rfl⟩
    dsimp only
    split
    · exact tried
    · split
      · split
        · exact unlocked
        · exact unlocked.trans (ih _)
      · exact tried

theorem erase_loop_extends :
    s.log <+: (erase_loop mtd ofs addrs s).2.log := by
  induction addrs generalizing s with
  | nil => exact prefix_rfl
  | cons addr rest ih =>
    rw [erase_loop]
    have asked := isbad_extends mtd (ofs+addr) s
    dsimp only
    split
    · exact asked
    split
    · exact asked.trans ((service_extends _).trans (ih _))
    · have erased_ := asked.trans (erase_tries_extends mtd (ofs+addr) 2 _)
      split
      · have marked := erased_.trans (markbad_extends mtd (ofs+addr) _)
        split
        · exact marked
        · exact marked.trans ((service_extends _).trans (ih _))
      · exact erased_.trans ((service_extends _).trans (ih _))

/-- What the calls of the loop keep, the loop keeps. -/
theorem write_loop_relates {R : Session World → Session World → Prop} (refl : ∀ s, R s s)
    (trans : ∀ {s t u}, R s t → R t u → R s u) (service : ∀ s, R s (recovery_service_runtime s)) (mtd : Mtd World) (ofs : Nat)
    (image : List UInt8) (verify strict : Bool) {addrs : List Nat}
    (asks : ∀ addr ∈ addrs, ∀ s, R s (mtd_block_isbad mtd (ofs+addr) s).2)
    (writes : ∀ addr ∈ addrs, ∀ bytes : List UInt8, bytes.length ≤ mtd.erasesize → ∀ s,
      R s (mtd_write mtd (ofs+addr) bytes s).2.2)
    (checks : ∀ addr ∈ addrs, ∀ bytes s, R s (recovery_mtd_verify_write mtd (ofs+addr) bytes s).2)
    (marks : ∀ addr ∈ addrs, ∀ s, R s (recovery_mtd_mark_bad mtd (ofs+addr) s).2) (written : Nat) (s : Session World) :
    R s (write_loop mtd ofs image verify strict addrs written s).2 := by
  induction addrs generalizing written s with
  | nil => exact refl s
  | cons addr rest ih =>
    have later := ih (fun a member => asks a (by simp [member])) (fun a member => writes a (by simp [member]))
      (fun a member => checks a (by simp [member])) (fun a member => marks a (by simp [member]))
    have asked := asks addr (by simp) s
    by_cases more : written < image.length
    · have short : ((image.drop written).take (min mtd.erasesize (image.length-written))).length ≤ mtd.erasesize := by
        rw [length_take]
        omega
      have round := @write_loop_round World mtd ofs image verify strict addr rest written s more
      generalize write_loop mtd ofs image verify strict (addr :: rest) written s = r at round ⊢
      generalize (image.drop written).take (min mtd.erasesize (image.length-written)) = bytes at short round
      have wrote : R s (block_wrote mtd (ofs+addr) bytes s).2.2 := trans asked (writes addr (by simp) bytes short _)
      have checked : R s (block_checked mtd (ofs+addr) bytes verify s).2 := by
        rw [block_checked]
        split
        · exact trans wrote (checks addr (by simp) bytes _)
        · exact wrote
      have marked : ∀ {u : Session World}, R s u → R s (recovery_mtd_mark_bad mtd (ofs+addr) u).2 :=
        fun {u} before => trans before (marks addr (by simp) u)
      have go : ∀ (written : Nat) {u : Session World}, R s u →
          R s (write_loop mtd ofs image verify strict rest written (recovery_service_runtime u)).2 :=
        fun written {u} before => trans before (trans (service u) (later written _))
      cases round with
      | stopped _ among =>
        simp only [mem_cons,not_mem_nil,or_false] at among
        rcases among with rfl | rfl | rfl | rfl | rfl
        · exact asked
        · exact wrote
        · exact checked
        · exact marked wrote
        · exact marked checked
      | bad => exact go _ asked
      | marked _ among =>
        simp only [mem_cons,not_mem_nil,or_false] at among
        rcases among with rfl | rfl
        · exact go _ (marked wrote)
        · exact go _ (marked checked)
      | stored => exact go _ checked
    · rw [write_loop,if_neg more]
      exact refl s

theorem write_loop_extends (image : List UInt8) (verify strict : Bool) (addrs : List Nat)
    (written : Nat) (s : Session World) :
    s.log <+: (write_loop mtd ofs image verify strict addrs written s).2.log := by
  apply @write_loop_relates World (fun s u => s.log <+: u.log)
  · exact fun s => prefix_rfl
  · exact fun first second => first.trans second
  · exact service_extends
  · exact fun addr _ => isbad_extends mtd (ofs+addr)
  · exact fun addr _ bytes _ => write_extends mtd (ofs+addr) bytes
  · exact fun addr _ => verify_extends mtd (ofs+addr)
  · exact fun addr _ => markbad_extends mtd (ofs+addr)

theorem require_good_blocks_asks (ofs len : Nat) (s : Session World) :
    ∃ ops, (recovery_mtd_require_good_blocks mtd ofs len s).2.log = s.log ++ ops ∧ ∀ op ∈ ops, op.alters = false := by
  rw [recovery_mtd_require_good_blocks]
  split
  · exact ⟨[],by simp,by simp⟩
  · exact good_blocks_loop_asks mtd ofs (block_addrs mtd len) 0 s

/-- The queries of a scan of the device from its start, all answered that the
    block is good. -/
def all_good (mtd : Mtd World) (len : Nat) : List Op :=
  (List.range (len/mtd.erasesize)).map (fun k => .isbad (k*mtd.erasesize) 0)

theorem require_good_blocks_good {mtd : Mtd World} {s : Session World} (some_ : len ≠ 0)
    (good : (recovery_mtd_require_good_blocks mtd 0 len s).1 = 0) :
    0 < mtd.erasesize ∧ mtd.erasesize ∣ len ∧
      (recovery_mtd_require_good_blocks mtd 0 len s).2.log = s.log ++ all_good mtd len := by
  rw [recovery_mtd_require_good_blocks] at good ⊢
  by_cases invalid : recovery_mtd_validate_region mtd 0 len ≠ 0
  · rw [if_pos invalid] at good
    exact absurd good invalid
  · rw [if_neg invalid] at good ⊢
    obtain ⟨pos,-,-,aligned⟩ := validate_region_spec (not_not.mp invalid) some_
    refine ⟨pos,aligned,?_⟩
    rw [(good_blocks_loop_good good).2,block_addrs_eq pos aligned,all_good,range_eq_range',map_map]
    simp [Function.comp_def]

/-- A strict write of the region that succeeds. -/
theorem write_mtd_region_strict {mtd : Mtd World} {ofs len : Nat} {image : List UInt8} {memory verify : Bool}
    (sound : verify = true ∨ Stores mtd) {s s' : Session World}
    (wrote : recovery_write_mtd_region mtd ofs len image memory verify true s = (0,s')) :
    load (mtd.content s'.world) ofs image.length = image := by
  rw [recovery_write_mtd_region] at wrote
  by_cases empty : image.length = 0
  · rw [empty,length_eq_zero_iff.mp empty]
    rfl
  rw [if_neg empty] at wrote
  by_cases invalid : recovery_mtd_validate_region mtd ofs len ≠ 0
  · rw [if_pos invalid] at wrote
    exact absurd (Prod.mk.inj wrote).1 invalid
  rw [if_neg invalid] at wrote
  split at wrote
  · exact absurd (Prod.mk.inj wrote).1 (by decide)
  · by_cases long : 2^32 ≤ image.length
    · have endless := @write_loop_endless _ mtd ofs image verify true long (block_addrs mtd len) 0 s (by decide)
      rw [wrote] at endless
      exact absurd rfl endless
    · rcases Nat.eq_zero_or_pos len with rfl | some_
      · rw [block_addrs_zero,write_loop,if_pos (by omega)] at wrote
        exact absurd (Prod.mk.inj wrote).1 (by decide)
      · obtain ⟨pos,-,-,aligned⟩ := validate_region_spec (not_not.mp invalid) (by omega)
        rw [block_addrs_eq pos aligned] at wrote
        exact write_loop_strict sound (by omega) _ 0 0 s (by simp) (Nat.zero_le _) rfl s' wrote

theorem erase_mtd_region_extends (ofs len : Nat) (s : Session World) :
    s.log <+: (recovery_erase_mtd_region mtd ofs len s).2.log := by
  rw [recovery_erase_mtd_region]
  dsimp only
  split
  · exact prefix_rfl
  · split
    · exact prefix_rfl
    · have unlocked : s.log <+: (mtd_unlock mtd ofs len s).log := ⟨_,rfl⟩
      exact unlocked.trans (erase_loop_extends mtd ofs (block_addrs mtd len) _)

theorem write_mtd_region_extends (ofs len : Nat) (image : List UInt8) (memory verify strict : Bool)
    (s : Session World) : s.log <+: (recovery_write_mtd_region mtd ofs len image memory verify strict s).2.log := by
  rw [recovery_write_mtd_region]
  dsimp only
  split
  · exact prefix_rfl
  · split
    · exact prefix_rfl
    · split
      · exact prefix_rfl
      · exact write_loop_extends mtd ofs image verify strict (block_addrs mtd len) 0 s

theorem note_extends (op : Op) : s.log <+: (s.note op).log := ⟨_,rfl⟩

theorem erase_and_write_extends (memory verify strict : Bool) (mtd : Mtd World) (ofs limit : Nat) (image : List UInt8)
    (s : Session World) : s.log <+: (erase_and_write memory verify strict mtd ofs limit image s).2.log := by
  rw [erase_and_write]
  have begun := (note_extends s (.phase 1)).trans (erase_mtd_region_extends mtd ofs limit _)
  generalize recovery_erase_mtd_region mtd ofs limit (s.note (.phase 1)) = erased_ at begun ⊢
  have goes := begun.trans ((note_extends erased_.2 (.phase 2)).trans
    (write_mtd_region_extends mtd ofs limit image memory verify strict _))
  dsimp only
  split
  · exact begun.trans (note_extends erased_.2 (.phase (-1)))
  · split
    · exact goes.trans (note_extends _ (.phase (-1)))
    · exact goes.trans (note_extends _ (.phase 3))

theorem erase_and_write_strict {memory : Bool} {mtd : Mtd World} {limit : Nat} {image : List UInt8} {s : Session World}
    (success : (erase_and_write memory true true mtd 0 limit image s).1 = 0) :
    load (mtd.content (erase_and_write memory true true mtd 0 limit image s).2.world) 0 image.length = image := by
  rw [erase_and_write] at success ⊢
  cases erased_ : recovery_erase_mtd_region mtd 0 limit (s.note (.phase 1)) with
  | mk ret s1 =>
    rw [erased_] at success
    dsimp only at success ⊢
    by_cases failed : ret ≠ 0
    · rw [if_pos failed] at success
      exact absurd success failed
    rw [if_neg failed] at success ⊢
    cases wrote : recovery_write_mtd_region mtd 0 limit image memory true true (s1.note (.phase 2)) with
    | mk ret s2 =>
      rw [wrote] at success
      dsimp only at success ⊢
      by_cases failed : ret ≠ 0
      · rw [if_pos failed] at success
        exact absurd success failed
      · rw [if_neg failed]
        obtain rfl := not_not.mp failed
        have at_end : load (mtd.content s2.world) 0 image.length = image := write_mtd_region_strict (.inl rfl) wrote
        exact at_end

theorem flash_mtd_bootloader (setup : Setup World) (mtd : Mtd World) (limit : Nat) (image : List UInt8)
    (s : Session World) :
    flash_mtd setup .TARGET_UBOOT mtd 0 limit image s =
      if (recovery_mtd_require_good_blocks mtd 0 limit s).1 ≠ 0 then
        fail (recovery_mtd_require_good_blocks mtd 0 limit s).1 (recovery_mtd_require_good_blocks mtd 0 limit s).2
      else erase_and_write setup.memory true true mtd 0 limit image (recovery_mtd_require_good_blocks mtd 0 limit s).2 :=
  rfl

theorem resolve_bootloader_ok {setup : Setup World} {target : RecoveryTarget World}
    (found : recovery_resolve_target setup .TARGET_UBOOT = .ok target) :
    ∃ mtd, setup.get_mtd_device_nm "bootloader" = .ok mtd ∧ target.backend = .RECOVERY_BACKEND_MTD ∧
      target.mtd = some mtd ∧ target.ofs = 0 := by
  simp only [recovery_resolve_target,resolve_bootloader] at found
  split at found
  · cases found
  · cases device : setup.get_mtd_device_nm "bootloader" with
    | error err =>
      rw [device] at found
      cases found
    | ok mtd =>
      rw [device] at found
      obtain rfl := Except.ok.inj found
      exact ⟨mtd,rfl,rfl,rfl,rfl⟩

/-- The update is refused: the image is not valid, there is no target or none
    with the fixed region, or the scan before the update fails, as it does when
    a block is reported bad or cannot be asked about. -/
def Refused (setup : Setup World) (image : List UInt8) (s : Session World) : Prop :=
  recovery_validate_mtd0_bootloader_image image ≠ 0 ∨
  (∃ err, recovery_resolve_target setup .TARGET_UBOOT = .error err) ∨
  ∃ target, recovery_resolve_target setup .TARGET_UBOOT = .ok target ∧
    (outside_region target = true ∨ ∃ mtd, target.mtd = some mtd ∧
      ((recovery_mtd_require_good_blocks mtd target.ofs target.limit s).1 ≠ 0 ∨
        ∃ addr ret, .isbad addr ret ∈ (recovery_mtd_require_good_blocks mtd target.ofs target.limit s).2.log ∧ ret ≠ 0))

theorem flash_image_bootloader (setup : Setup World) (image : List UInt8) (s : Session World) :
    (∃ ret, ret ≠ 0 ∧ flash_image setup .TARGET_UBOOT image s = fail ret s) ∨
    ∃ target mtd, recovery_validate_mtd0_bootloader_image image = 0 ∧ image.length = RECOVERY_MAX_UBOOT_SIZE ∧
      recovery_resolve_target setup .TARGET_UBOOT = .ok target ∧ outside_region target = false ∧
      setup.get_mtd_device_nm "bootloader" = .ok mtd ∧ target.mtd = some mtd ∧ target.ofs = 0 ∧
      target.limit = RECOVERY_MAX_UBOOT_SIZE ∧
      flash_image setup .TARGET_UBOOT image s = flash_mtd setup .TARGET_UBOOT mtd 0 RECOVERY_MAX_UBOOT_SIZE image s := by
  have invalid : -EINVAL ≠ 0 := by decide
  have exact_size : recovery_target_exact_size .TARGET_UBOOT = RECOVERY_MAX_UBOOT_SIZE := rfl
  have some_size : RECOVERY_MAX_UBOOT_SIZE ≠ 0 := by decide
  rw [flash_image,exact_size,if_pos rfl]
  by_cases empty : image.length = 0
  · exact .inl ⟨-EINVAL,invalid,by rw [if_pos empty]⟩
  rw [if_neg empty]
  by_cases size : image.length ≠ RECOVERY_MAX_UBOOT_SIZE
  · exact .inl ⟨-EINVAL,invalid,by rw [if_pos ⟨some_size,size⟩]⟩
  rw [if_neg (fun both => size both.2)]
  by_cases bad : recovery_validate_mtd0_bootloader_image image ≠ 0
  · exact .inl ⟨_,bad,by rw [if_pos bad]⟩
  rw [if_neg bad]
  cases found : recovery_resolve_target setup .TARGET_UBOOT with
  | error err => exact .inl ⟨err.val,by have := err.property; omega,rfl⟩
  | ok target =>
    obtain ⟨mtd,device,backend,has,ofs⟩ := resolve_bootloader_ok found
    cases outside : outside_region target with
    | true => exact .inl ⟨-EINVAL,invalid,by simp [outside]⟩
    | false =>
      have limit : target.limit = RECOVERY_MAX_UBOOT_SIZE := by
        simp [outside_region,has] at outside
        exact outside.1.2
      refine .inr ⟨target,mtd,not_not.mp bad,not_not.mp size,rfl,outside,device,has,ofs,limit,?_⟩
      simp only [outside,backend,has,ofs,limit,Bool.false_eq_true,and_false,if_false]
      rw [if_neg (by omega)]

/-- An update of the bootloader that returns success has left the image on the
    device; one that is refused has neither erased nor written; and whatever was
    erased or written, every block of the region was reported good before. -/
theorem bootloader_all_or_refuse (setup : Setup World) (image : List UInt8) (world : World) :
    let s : Session World := ⟨world,[]⟩
    let r := flash_image setup .TARGET_UBOOT image s
    (r.1 = 0 → ∃ mtd, setup.get_mtd_device_nm "bootloader" = .ok mtd ∧
      load (mtd.content r.2.world) 0 RECOVERY_MAX_UBOOT_SIZE = image) ∧
    (Refused setup image s → r.1 ≠ 0 ∧ ∀ op ∈ r.2.log, op.alters = false) ∧
    ((∃ op ∈ r.2.log, op.alters = true) → ∃ mtd, setup.get_mtd_device_nm "bootloader" = .ok mtd ∧
      0 < mtd.erasesize ∧ mtd.erasesize ∣ RECOVERY_MAX_UBOOT_SIZE ∧
      all_good mtd RECOVERY_MAX_UBOOT_SIZE <+: r.2.log) := by
  intro s r
  have some_size : RECOVERY_MAX_UBOOT_SIZE ≠ 0 := by decide
  rcases flash_image_bootloader setup image s with ⟨ret,failed,ends⟩ |
    ⟨target,mtd,valid,size,found,inside,device,has,ofs,limit,ends⟩
  · have same : r = fail ret s := ends
    have quiet : ∀ op ∈ r.2.log, op.alters = false := by
      rw [same]
      simp [fail,Session.note,s,Op.alters]
    refine ⟨fun good => absurd good (by rw [same]; exact failed),fun _ => ⟨by rw [same]; exact failed,quiet⟩,?_⟩
    rintro ⟨op,logged,alters⟩
    simp [quiet op logged] at alters
  · have same : r = flash_mtd setup .TARGET_UBOOT mtd 0 RECOVERY_MAX_UBOOT_SIZE image s := ends
    rw [flash_mtd_bootloader] at same
    obtain ⟨ops,asked,harmless⟩ := require_good_blocks_asks mtd 0 RECOVERY_MAX_UBOOT_SIZE s
    by_cases bad : (recovery_mtd_require_good_blocks mtd 0 RECOVERY_MAX_UBOOT_SIZE s).1 ≠ 0
    · rw [if_pos bad] at same
      have quiet : ∀ op ∈ r.2.log, op.alters = false := by
        intro op logged
        rw [same,fail,Session.note,asked] at logged
        simp only [s,List.nil_append,List.mem_append,List.mem_singleton] at logged
        rcases logged with query | rfl
        · exact harmless op query
        · rfl
      refine ⟨fun good => absurd good (by rw [same]; exact bad),fun _ => ⟨by rw [same]; exact bad,quiet⟩,?_⟩
      rintro ⟨op,logged,alters⟩
      simp [quiet op logged] at alters
    · rw [if_neg bad] at same
      obtain ⟨pos,aligned,scanned⟩ := require_good_blocks_good some_size (not_not.mp bad)
      refine ⟨?_,?_,?_⟩
      · intro success
        rw [same] at success ⊢
        refine ⟨mtd,device,?_⟩
        have written := erase_and_write_strict success
        rwa [size] at written
      · -- None of the reasons applies, since the scan answered well throughout.
        rintro (invalid | ⟨err,missing⟩ | ⟨target',found',outside | ⟨mtd',has',scan⟩⟩)
        · exact absurd valid invalid
        · rw [found] at missing
          cases missing
        · obtain rfl := Except.ok.inj (found.symm.trans found')
          simp [inside] at outside
        · obtain rfl := Except.ok.inj (found.symm.trans found')
          obtain rfl := Option.some.inj (has.symm.trans has')
          rw [ofs,limit] at scan
          rcases scan with failed | ⟨addr,ret,reported,wrong⟩
          · exact absurd (not_not.mp bad) failed
          · rw [scanned] at reported
            simp only [s,all_good,List.nil_append,List.mem_map] at reported
            obtain ⟨k,-,answer⟩ := reported
            exact absurd (Op.isbad.inj answer).2.symm wrong
      · intro _
        refine ⟨mtd,device,pos,aligned,?_⟩
        rw [same]
        have goes := erase_and_write_extends setup.memory true true mtd 0 RECOVERY_MAX_UBOOT_SIZE image
          (recovery_mtd_require_good_blocks mtd 0 RECOVERY_MAX_UBOOT_SIZE s).2
        rw [scanned] at goes
        exact goes

end
end UBoot.Recovery
