import UBoot.PowerCuts
import UBoot.EnvRedund

/-!
The Android A/B control block, `boot/android_ab.c`. The device is a function from block numbers to
blocks; a block holds a control block and the bytes behind it, reads and allocations succeed, and
what a call writes is a list of block writes that come after all of its reads. The checksum is an
argument.

`ab_select_slot` writes the primary block before it refreshes the backup, so after a cut in the
write of the primary the next call works from the backup, whatever that holds.
-/
namespace UBoot.AndroidAb
open UBoot.PowerCuts

def EINVAL : ℤ := 22
def ENODATA : ℤ := 61

def BOOT_CTRL_MAGIC : UInt32 := 0x42414342
def BOOT_CTRL_VERSION : UInt8 := 1
def NUM_SLOTS : BitVec 3 := 2

structure SlotMetadata where
  priority : BitVec 4
  tries_remaining : BitVec 3
  successful_boot : BitVec 1
  verity_corrupted : BitVec 1
  reserved : BitVec 7
deriving DecidableEq

/-- The fields of `struct bootloader_control` in front of the checksum; `unused` are the
    two bits behind `recovery_tries_remaining`. -/
structure ControlBody where
  slot_suffix : Vector UInt8 4
  magic : UInt32
  version : UInt8
  nb_slot : BitVec 3
  recovery_tries_remaining : BitVec 3
  unused : BitVec 2
  reserved0 : Vector UInt8 2
  slot_info : Fin 4 → SlotMetadata
  reserved1 : Vector UInt8 8
deriving DecidableEq

structure BootloaderControl extends ControlBody where
  crc32_le : UInt32
deriving DecidableEq

/-- A block of the device: a control block and what stands behind it. -/
structure Block where
  control : BootloaderControl
  rest : List UInt8

/-- `struct disk_partition`; a control block fits into one block of the device. -/
structure DiskPartition where
  start : ℕ
  size : ℕ
  blksz : ℕ
  holds_control : 32 ≤ blksz

abbrev Device := ℕ → Block

/-- `sizeof(struct bootloader_control)` and the offset of `slot_suffix` in
    `struct bootloader_message_ab`. -/
def control_size : ℕ := 32
def slot_suffix_offset : ℕ := 2048

def DIV_ROUND_UP (n d : ℕ) : ℕ := (n+d-1)/d

def ab_control_create_from_disk (device : Device) (part_info : DiskPartition) (offset : ℕ) : Except ℤ Block :=
  let abc_offset := offset+slot_suffix_offset
  if abc_offset%part_info.blksz ≠ 0 then .error (-EINVAL)
  else
    let abc_offset := abc_offset/part_info.blksz
    let abc_blocks := DIV_ROUND_UP control_size part_info.blksz
    if part_info.size < abc_offset+abc_blocks then .error (-EINVAL)
    else .ok (device (part_info.start+abc_offset))

/-- `ab_control_store`: the write that it makes. -/
def ab_control_store (part_info : DiskPartition) (abc : Block) (offset : ℕ) : Except ℤ (ℕ × Block) :=
  if offset%part_info.blksz ≠ 0 then .error (-EINVAL)
  else .ok (part_info.start+(offset+slot_suffix_offset)/part_info.blksz,abc)

def ab_compare_slots (a b : SlotMetadata) : ℤ :=
  if a.priority ≠ b.priority then (b.priority.toNat : ℤ)-a.priority.toNat
  else if a.successful_boot ≠ b.successful_boot then (b.successful_boot.toNat : ℤ)-a.successful_boot.toNat
  else if a.tries_remaining ≠ b.tries_remaining then (b.tries_remaining.toNat : ℤ)-a.tries_remaining.toNat
  else 0

/-- The loop of `ab_select_slot` over the slots. -/
def select_loop (slot_info : Fin 4 → SlotMetadata) : List (Fin 4) → Option (Fin 4) → Option (Fin 4)
  | [], slot => slot
  | i :: rest, slot =>
    if (slot_info i).verity_corrupted ≠ 0 ∨ ((slot_info i).tries_remaining = 0 ∧ (slot_info i).successful_boot = 0) then
      select_loop slot_info rest slot
    else
      match slot with
      | none => select_loop slot_info rest (some i)
      | some best =>
        if ab_compare_slots (slot_info i) (slot_info best) < 0 then select_loop slot_info rest (some i)
        else select_loop slot_info rest slot

/-- The slot that a control block with at most four slots selects. -/
def selected (abc : ControlBody) : Option (Fin 4) :=
  select_loop abc.slot_info ((List.finRange 4).take abc.nb_slot.toNat) none

/-- The `slot_suffix` of a slot, with `BOOT_SLOT_NAME`. -/
def suffix_of (slot : Fin 4) : Vector UInt8 4 := #v[95,97+.ofNat slot.val,0,0]

section
variable (crc32 : ControlBody → UInt32)

def ab_control_compute_crc (abc : BootloaderControl) : UInt32 := crc32 abc.toControlBody

/-- `ab_control_default`; the slots from `NUM_SLOTS` on and the tries of the recovery
    stay as they are. -/
def ab_control_default (abc : BootloaderControl) : BootloaderControl :=
  let body : ControlBody := { abc.toControlBody with
    slot_suffix := #v[95,97,0,0]
    magic := BOOT_CTRL_MAGIC
    version := BOOT_CTRL_VERSION
    nb_slot := NUM_SLOTS
    reserved0 := #v[0,0]
    slot_info := fun i => if i.val < NUM_SLOTS.toNat then ⟨15,7,0,0,0⟩ else abc.slot_info i
    reserved1 := #v[0,0,0,0,0,0,0,0] }
  ⟨body,crc32 body⟩

/-- The beginning of `ab_select_slot`: the control block that it works from, and
    whether that has to be stored. -/
def work_from (abc backup_abc : BootloaderControl) : BootloaderControl × Bool :=
  if abc.crc32_le ≠ ab_control_compute_crc crc32 abc then
    if backup_abc.crc32_le ≠ ab_control_compute_crc crc32 backup_abc then (ab_control_default crc32 abc,true)
    else (backup_abc,true)
  else (abc,false)

/-- The middle of `ab_select_slot`: the slot, the control block with the attempt
    counted, and whether that has to be stored. -/
def choose_slot (abc : ControlBody) (store_needed dec_tries : Bool) : Option (Fin 4) × ControlBody × Bool :=
  -- Safety check: limit the number of slots.
  let (abc,store_needed) := if 4 < abc.nb_slot.toNat then ({ abc with nb_slot := 4 },true) else (abc,store_needed)
  match selected abc with
  | none => (none,abc,store_needed)
  | some slot =>
    let (abc,store_needed) :=
      if (abc.slot_info slot).successful_boot = 0 ∧ dec_tries then
        let info := { abc.slot_info slot with tries_remaining := (abc.slot_info slot).tries_remaining-1 }
        ({ abc with slot_info := Function.update abc.slot_info slot info },true)
      else (abc,store_needed)
    if abc.slot_suffix ≠ suffix_of slot then (some slot,{ abc with slot_suffix := suffix_of slot },true)
    else (some slot,abc,store_needed)

/-- What `ab_select_slot` returns and the writes that it makes on the way. -/
structure Selection where
  ret : ℤ
  writes : List (ℕ × Block)

/-- `ab_select_slot` with `CONFIG_ANDROID_AB_BACKUP_OFFSET` set. -/
def ab_select_slot (backup_offset : ℕ) (device : Device) (part_info : DiskPartition) (dec_tries : Bool) : Selection :=
  match ab_control_create_from_disk device part_info 0 with
  | .error ret => ⟨ret,[]⟩
  | .ok abc =>
    match ab_control_create_from_disk device part_info backup_offset with
    | .error ret => ⟨ret,[]⟩
    | .ok backup_abc =>
      let (control,store_needed) := work_from crc32 abc.control backup_abc.control
      if control.magic ≠ BOOT_CTRL_MAGIC then ⟨-ENODATA,[]⟩
      else if BOOT_CTRL_VERSION < control.version then ⟨-ENODATA,[]⟩
      else
        let (slot,body,store_needed) := choose_slot control.toControlBody store_needed dec_tries
        let control : BootloaderControl := ⟨body,if store_needed then crc32 body else control.crc32_le⟩
        let abc : Block := ⟨control,abc.rest⟩
        let result (writes : List (ℕ × Block)) : Selection :=
          ⟨match slot with
            | none => -EINVAL
            | some slot => slot.val,writes⟩
        let refresh (writes : List (ℕ × Block)) : Selection :=
          if backup_abc.control ≠ abc.control then
            match ab_control_store part_info abc backup_offset with
            | .error ret => ⟨ret,writes⟩
            | .ok w => result (writes ++ [w])
          else result writes
        if store_needed then
          match ab_control_store part_info abc 0 with
          | .error ret => ⟨ret,[]⟩
          | .ok w => refresh [w]
        else refresh []
end

/-! ## Contents that survive -/

def primary_at (part_info : DiskPartition) : ℕ := part_info.start+slot_suffix_offset/part_info.blksz

def backup_at (part_info : DiskPartition) (backup_offset : ℕ) : ℕ :=
  part_info.start+(backup_offset+slot_suffix_offset)/part_info.blksz

structure Placed (part_info : DiskPartition) (backup_offset : ℕ) : Prop where
  backed_up : backup_offset ≠ 0
  primary_aligned : part_info.blksz ∣ slot_suffix_offset
  backup_aligned : part_info.blksz ∣ backup_offset
  backup_inside : (backup_offset+slot_suffix_offset)/part_info.blksz < part_info.size

/-- The number of slots that `ab_select_slot` looks at. -/
def limited (abc : ControlBody) : ControlBody := if 4 < abc.nb_slot.toNat then { abc with nb_slot := 4 } else abc

/-- A valid primary block is written: it has too many slots, an attempt is counted, or
    it names another slot than the one selected. -/
def Stores (abc : ControlBody) (dec_tries : Bool) : Prop :=
  abc.magic = BOOT_CTRL_MAGIC ∧ abc.version ≤ BOOT_CTRL_VERSION ∧
    (4 < abc.nb_slot.toNat ∨ ∃ slot, selected (limited abc) = some slot ∧
      ((abc.slot_info slot).successful_boot = 0 ∧ dec_tries = true ∨ abc.slot_suffix ≠ suffix_of slot))

section
variable (crc32 : ControlBody → UInt32)

def Valid (abc : BootloaderControl) : Prop := abc.crc32_le = ab_control_compute_crc crc32 abc

instance (abc : BootloaderControl) : Decidable (Valid crc32 abc) := inferInstanceAs (Decidable (_ = _))

def works_from (backup_offset : ℕ) (device : Device) (part_info : DiskPartition) : BootloaderControl :=
  (work_from crc32 (device (primary_at part_info)).control (device (backup_at part_info backup_offset)).control).1

/-- The contents that a call stores which works from `abc`. -/
def storing (abc : BootloaderControl) (dec_tries : Bool) : BootloaderControl :=
  let body := (choose_slot abc.toControlBody false dec_tries).2.1
  ⟨body,crc32 body⟩

/-- However the call is cut, the next one works from the primary contents or from those
    that the call was storing. -/
def Survives (backup_offset : ℕ) (device : Device) (part_info : DiskPartition) (dec_tries : Bool) : Prop :=
  ∀ after, Cut (fun block => ¬ Valid crc32 block.control) device
      (ab_select_slot crc32 backup_offset device part_info dec_tries).writes after →
    works_from crc32 backup_offset after part_info = (device (primary_at part_info)).control ∨
      works_from crc32 backup_offset after part_info = storing crc32 (device (primary_at part_info)).control dec_tries
end

theorem control_blocks (part_info : DiskPartition) : DIV_ROUND_UP control_size part_info.blksz = 1 := by
  have holds := part_info.holds_control
  rw [DIV_ROUND_UP,control_size]
  exact Nat.div_eq_of_lt_le (by omega) (by omega)

theorem create_at {device : Device} {part_info : DiskPartition} {offset : ℕ}
    (aligned : part_info.blksz ∣ offset+slot_suffix_offset)
    (inside : (offset+slot_suffix_offset)/part_info.blksz < part_info.size) :
    ab_control_create_from_disk device part_info offset =
      .ok (device (part_info.start+(offset+slot_suffix_offset)/part_info.blksz)) := by
  rw [ab_control_create_from_disk]
  dsimp only
  rw [control_blocks,if_neg (by omega),if_neg (by omega)]

section
variable {part_info : DiskPartition} {backup_offset : ℕ}

theorem Placed.backup_blocks (placed : Placed part_info backup_offset) :
    (backup_offset+slot_suffix_offset)/part_info.blksz =
      backup_offset/part_info.blksz+slot_suffix_offset/part_info.blksz :=
  Nat.add_div_of_dvd_right placed.backup_aligned

theorem Placed.apart (placed : Placed part_info backup_offset) :
    primary_at part_info ≠ backup_at part_info backup_offset := by
  have holds := part_info.holds_control
  have blocks := placed.backup_blocks
  have some_block : 0 < backup_offset/part_info.blksz :=
    Nat.div_pos (Nat.le_of_dvd (Nat.pos_of_ne_zero placed.backed_up) placed.backup_aligned) (by omega)
  rw [primary_at,backup_at]
  omega

theorem Placed.primary_read (placed : Placed part_info backup_offset) (device : Device) :
    ab_control_create_from_disk device part_info 0 = .ok (device (primary_at part_info)) := by
  have blocks := placed.backup_blocks
  have inside := placed.backup_inside
  have found := @create_at device part_info 0 (by rw [zero_add]; exact placed.primary_aligned)
    (by rw [zero_add]; exact lt_of_le_of_lt (Nat.le_add_left _ _) (blocks ▸ inside))
  rw [zero_add] at found
  exact found

theorem Placed.backup_read (placed : Placed part_info backup_offset) (device : Device) :
    ab_control_create_from_disk device part_info backup_offset = .ok (device (backup_at part_info backup_offset)) :=
  create_at (dvd_add placed.backup_aligned placed.primary_aligned) placed.backup_inside

theorem primary_store (part_info : DiskPartition) (abc : Block) :
    ab_control_store part_info abc 0 = .ok (primary_at part_info,abc) := by
  rw [ab_control_store,if_neg (by simp),zero_add,primary_at]

theorem Placed.backup_store (placed : Placed part_info backup_offset) (abc : Block) :
    ab_control_store part_info abc backup_offset = .ok (backup_at part_info backup_offset,abc) := by
  have whole := Nat.mod_eq_zero_of_dvd placed.backup_aligned
  rw [ab_control_store,if_neg (by omega),backup_at]
end

theorem limited_eq (abc : ControlBody) :
    (if 4 < abc.nb_slot.toNat then ({ abc with nb_slot := 4 },true) else (abc,false)) =
      (limited abc,decide (4 < abc.nb_slot.toNat)) := by
  rw [limited]
  split
  · next many => rw [decide_eq_true many]
  · next few => rw [decide_eq_false few]

theorem limited_fields (abc : ControlBody) :
    (limited abc).slot_info = abc.slot_info ∧ (limited abc).slot_suffix = abc.slot_suffix := by
  rw [limited]
  split
  · exact ⟨rfl,rfl⟩
  · exact ⟨rfl,rfl⟩

/-- A control block is stored because of the number of its slots, an attempt or the
    suffix, and stays as it is where it is not. -/
theorem choose_slot_stores (abc : ControlBody) (dec_tries : Bool) :
    ((choose_slot abc false dec_tries).2.2 = true ↔ 4 < abc.nb_slot.toNat ∨ ∃ slot, selected (limited abc) = some slot ∧
      ((abc.slot_info slot).successful_boot = 0 ∧ dec_tries = true ∨ abc.slot_suffix ≠ suffix_of slot)) ∧
    ((choose_slot abc false dec_tries).2.2 = false → (choose_slot abc false dec_tries).2.1 = abc) := by
  obtain ⟨same_info,same_suffix⟩ := limited_fields abc
  rw [choose_slot,limited_eq]
  dsimp only
  have unlimited (few : ¬ 4 < abc.nb_slot.toNat) : limited abc = abc := if_neg few
  cases chosen : selected (limited abc) with
  | none =>
    dsimp only
    constructor
    · simp
    · intro kept
      exact unlimited (by simpa using kept)
  | some slot =>
    dsimp only
    rw [same_info,same_suffix]
    by_cases attempt : (abc.slot_info slot).successful_boot = 0 ∧ dec_tries = true
    · rw [if_pos attempt]
      dsimp only
      split
      · simp [attempt]
      · simp [attempt]
    rw [if_neg attempt]
    dsimp only
    rw [same_suffix]
    by_cases suffix : abc.slot_suffix = suffix_of slot
    · rw [if_neg (not_not.mpr suffix)]
      dsimp only
      constructor
      · constructor
        · intro many
          exact .inl (by simpa using many)
        · rintro (many | ⟨other,same,change⟩)
          · simpa using many
          · obtain rfl := Option.some.inj same
            rcases change with counted | named
            · exact absurd counted attempt
            · exact absurd suffix named
      · intro kept
        exact unlimited (by simpa using kept)
    · rw [if_pos suffix]
      dsimp only
      refine ⟨⟨fun _ => .inr ⟨slot,rfl,.inr suffix⟩,fun _ => rfl⟩,?_⟩
      intro kept
      cases kept

section
variable {crc32 : ControlBody → UInt32} {backup_offset : ℕ} {device : Device} {part_info : DiskPartition} {dec_tries : Bool}

theorem work_from_valid {abc : BootloaderControl} (valid : Valid crc32 abc) (backup_abc : BootloaderControl) :
    work_from crc32 abc backup_abc = (abc,false) := if_neg (not_not.mpr valid)

theorem work_from_torn {abc backup_abc : BootloaderControl} (torn : ¬ Valid crc32 abc) :
    (work_from crc32 abc backup_abc).1 =
      if Valid crc32 backup_abc then backup_abc else ab_control_default crc32 abc := by
  rw [work_from,if_pos (show abc.crc32_le ≠ ab_control_compute_crc crc32 abc from torn)]
  by_cases valid : Valid crc32 backup_abc
  · rw [if_pos valid]
    exact congrArg Prod.fst (if_neg (not_not.mpr valid))
  · rw [if_neg valid]
    exact congrArg Prod.fst (if_pos valid)

theorem storing_valid (abc : BootloaderControl) : Valid crc32 (storing crc32 abc dec_tries) := rfl

theorem writes_storing (placed : Placed part_info backup_offset)
    (valid : Valid crc32 (device (primary_at part_info)).control)
    (stores : Stores (device (primary_at part_info)).control.toControlBody dec_tries) :
    ∃ abc : Block, ∃ rest, abc.control = storing crc32 (device (primary_at part_info)).control dec_tries ∧
      (∀ w ∈ rest, w.1 = backup_at part_info backup_offset) ∧
      (ab_select_slot crc32 backup_offset device part_info dec_tries).writes = (primary_at part_info,abc)::rest := by
  obtain ⟨magic,version,changes⟩ := stores
  have needed := (choose_slot_stores (device (primary_at part_info)).control.toControlBody dec_tries).1.mpr changes
  rw [ab_select_slot,placed.primary_read,placed.backup_read]
  dsimp only
  rw [work_from_valid valid]
  dsimp only
  rw [if_neg (not_not.mpr magic),if_neg (UInt8.not_lt.mpr version),needed,
    if_pos rfl,if_pos rfl,primary_store]
  dsimp only
  rw [placed.backup_store]
  split
  · exact ⟨_,_,rfl,fun w member => by rw [List.mem_singleton.mp member],rfl⟩
  · exact ⟨_,_,rfl,fun w member => absurd member List.not_mem_nil,rfl⟩

theorem writes_unchanged (placed : Placed part_info backup_offset)
    (valid : Valid crc32 (device (primary_at part_info)).control)
    (unchanged : ¬ Stores (device (primary_at part_info)).control.toControlBody dec_tries) :
    ∀ w ∈ (ab_select_slot crc32 backup_offset device part_info dec_tries).writes,
      w.1 = backup_at part_info backup_offset := by
  rw [ab_select_slot,placed.primary_read,placed.backup_read]
  dsimp only
  rw [work_from_valid valid]
  dsimp only
  by_cases magic : (device (primary_at part_info)).control.magic = BOOT_CTRL_MAGIC
  · rw [if_neg (not_not.mpr magic)]
    by_cases version : BOOT_CTRL_VERSION < (device (primary_at part_info)).control.version
    · rw [if_pos version]
      exact fun w member => absurd member List.not_mem_nil
    rw [if_neg version]
    have kept : (choose_slot (device (primary_at part_info)).control.toControlBody false dec_tries).2.2 = false := by
      rw [← Bool.not_eq_true]
      intro needed
      exact unchanged ⟨magic,UInt8.not_lt.mp version,(choose_slot_stores _ _).1.mp needed⟩
    rw [kept,if_neg Bool.false_ne_true,if_neg Bool.false_ne_true,placed.backup_store]
    split
    · exact fun w member => by rw [List.mem_singleton.mp member]
    · exact fun w member => absurd member List.not_mem_nil
  · rw [if_pos magic]
    exact fun w member => absurd member List.not_mem_nil

theorem works_from_primary {after : Device} {abc : BootloaderControl} (valid : Valid crc32 abc)
    (there : (after (primary_at part_info)).control = abc) : works_from crc32 backup_offset after part_info = abc := by
  rw [works_from,there,work_from_valid valid]

theorem works_from_torn (placed : Placed part_info backup_offset) {t : Block} (torn : ¬ Valid crc32 t.control) :
    works_from crc32 backup_offset (Function.update device (primary_at part_info) t) part_info =
      if Valid crc32 (device (backup_at part_info backup_offset)).control then (device (backup_at part_info backup_offset)).control else ab_control_default crc32 t.control := by
  rw [works_from,Function.update_self,Function.update_of_ne placed.apart.symm,work_from_torn torn]

theorem exists_torn (crc32 : ControlBody → UInt32) (info : SlotMetadata) :
    ∃ t : Block, ¬ Valid crc32 t.control ∧ (ab_control_default crc32 t.control).slot_info 3 = info := by
  let body : ControlBody := ⟨#v[0,0,0,0],0,0,0,0,0,#v[0,0],fun _ => info,#v[0,0,0,0,0,0,0,0]⟩
  refine ⟨⟨⟨body,crc32 body+1⟩,[]⟩,?_,?_⟩
  · intro valid
    change crc32 body+1 = crc32 body at valid
    exact absurd valid (by simp)
  · rw [ab_control_default]
    dsimp only
    rw [if_neg (by decide)]

theorem exists_other (a b : SlotMetadata) : ∃ info, info ≠ a ∧ info ≠ b := by
  have more : ({a,b} : Finset SlotMetadata).card < ({⟨0,0,0,0,0⟩,⟨0,0,0,0,1⟩,⟨0,0,0,0,2⟩} : Finset SlotMetadata).card :=
    lt_of_le_of_lt Finset.card_le_two (by decide)
  obtain ⟨info,_,other⟩ := Finset.exists_mem_notMem_of_card_lt_card more
  simp only [Finset.mem_insert,Finset.mem_singleton,not_or] at other
  exact ⟨info,other⟩

theorem survives_unchanged (placed : Placed part_info backup_offset)
    (valid : Valid crc32 (device (primary_at part_info)).control)
    (unchanged : ¬ Stores (device (primary_at part_info)).control.toControlBody dec_tries) :
    Survives crc32 backup_offset device part_info dec_tries := by
  intro after cut
  refine .inl (works_from_primary valid ?_)
  rw [cut_elsewhere (fun w member => ?_) cut]
  rw [writes_unchanged placed valid unchanged w member]
  exact placed.apart.symm

theorem survives_backed_up (placed : Placed part_info backup_offset)
    (valid : Valid crc32 (device (primary_at part_info)).control)
    (stores : Stores (device (primary_at part_info)).control.toControlBody dec_tries)
    (backed_up : Valid crc32 (device (backup_at part_info backup_offset)).control)
    (fresh : (device (backup_at part_info backup_offset)).control = (device (primary_at part_info)).control ∨
      (device (backup_at part_info backup_offset)).control =
        storing crc32 (device (primary_at part_info)).control dec_tries) :
    Survives crc32 backup_offset device part_info dec_tries := by
  intro after cut
  obtain ⟨abc,rest,contents,elsewhere,writes⟩ := writes_storing placed valid stores
  rw [writes] at cut
  rcases cut_cons cut with rfl | ⟨t,torn,rfl⟩ | behind
  · exact .inl (works_from_primary valid rfl)
  · rw [works_from_torn placed torn,if_pos backed_up]
    exact fresh
  · refine .inr (works_from_primary (storing_valid _) ?_)
    rw [cut_elsewhere (fun w member => elsewhere w member ▸ placed.apart.symm) behind,Function.update_self]
    exact contents

theorem stale_not_survives (placed : Placed part_info backup_offset)
    (valid : Valid crc32 (device (primary_at part_info)).control)
    (stores : Stores (device (primary_at part_info)).control.toControlBody dec_tries)
    (stale : ¬ (Valid crc32 (device (backup_at part_info backup_offset)).control ∧
      ((device (backup_at part_info backup_offset)).control = (device (primary_at part_info)).control ∨
        (device (backup_at part_info backup_offset)).control =
          storing crc32 (device (primary_at part_info)).control dec_tries))) :
    ¬ Survives crc32 backup_offset device part_info dec_tries := by
  intro survives
  obtain ⟨abc,rest,_,_,writes⟩ := writes_storing placed valid stores
  obtain ⟨info,not_primary,not_storing⟩ := exists_other ((device (primary_at part_info)).control.slot_info 3)
    ((storing crc32 (device (primary_at part_info)).control dec_tries).slot_info 3)
  obtain ⟨t,torn,kept⟩ := exists_torn crc32 info
  have next := survives (Function.update device (primary_at part_info) t) (by rw [writes]; exact .torn torn)
  rw [works_from_torn placed torn] at next
  by_cases backed_up : Valid crc32 (device (backup_at part_info backup_offset)).control
  · rw [if_pos backed_up] at next
    exact stale ⟨backed_up,next⟩
  · rw [if_neg backed_up] at next
    rcases next with same | same
    · rw [same] at kept
      exact not_primary kept.symm
    · rw [same] at kept
      exact not_storing kept.symm

/-- The contents survive every cut of a call exactly if the call does not write the
    primary, or the backup is valid with the contents of the primary or those that the
    call stores. -/
theorem survives_iff (placed : Placed part_info backup_offset)
    (valid : Valid crc32 (device (primary_at part_info)).control) :
    Survives crc32 backup_offset device part_info dec_tries ↔
      (Stores (device (primary_at part_info)).control.toControlBody dec_tries →
        Valid crc32 (device (backup_at part_info backup_offset)).control ∧
        ((device (backup_at part_info backup_offset)).control = (device (primary_at part_info)).control ∨
          (device (backup_at part_info backup_offset)).control =
            storing crc32 (device (primary_at part_info)).control dec_tries)) := by
  constructor
  · intro survives stores
    by_contra stale
    exact stale_not_survives placed valid stores stale survives
  · intro backed_up
    by_cases stores : Stores (device (primary_at part_info)).control.toControlBody dec_tries
    · exact survives_backed_up placed valid stores (backed_up stores).1 (backed_up stores).2
    · exact survives_unchanged placed valid stores
end

/-! ## A partition with blocks of 512 bytes -/

/-- The 28 bytes that the checksum covers. -/
def body_bytes (abc : ControlBody) : List UInt8 :=
  abc.slot_suffix.toList ++ (List.range 4).map (fun i => (abc.magic >>> (.ofNat (8*i))).toUInt8) ++
  [abc.version,.ofNat (abc.nb_slot.toNat+8*abc.recovery_tries_remaining.toNat+64*abc.unused.toNat)] ++
  abc.reserved0.toList ++
  (List.finRange 4).flatMap (fun i =>
    [.ofNat ((abc.slot_info i).priority.toNat+16*(abc.slot_info i).tries_remaining.toNat+
      128*(abc.slot_info i).successful_boot.toNat),
    .ofNat ((abc.slot_info i).verity_corrupted.toNat+2*(abc.slot_info i).reserved.toNat)]) ++
  abc.reserved1.toList

/-- The checksum of `lib/crc32.c`. -/
def checksum (abc : ControlBody) : UInt32 := Env.crc32 (body_bytes abc)

/-- Two slots that have not booted yet, with the same number of tries. -/
def sample_control (tries : BitVec 3) : BootloaderControl :=
  let body : ControlBody := ⟨#v[95,97,0,0],BOOT_CTRL_MAGIC,BOOT_CTRL_VERSION,NUM_SLOTS,0,0,#v[0,0],fun _ => ⟨15,tries,0,0,0⟩,
    #v[0,0,0,0,0,0,0,0]⟩
  ⟨body,checksum body⟩

def sample_part : DiskPartition := ⟨0,16,512,by decide⟩

/-- The primary has five tries left, and the backup is given. -/
def sample_device (backup : BootloaderControl) : Device := fun n => ⟨if n = 12 then backup else sample_control 5,[]⟩

theorem sample_placed : Placed sample_part 0x1000 := ⟨by decide,by decide,by decide,by decide⟩

theorem sample_stores : Stores (sample_control 5).toControlBody true :=
  ⟨rfl,by decide,.inr ⟨0,by decide,.inl ⟨rfl,rfl⟩⟩⟩

theorem sample_valid (backup : BootloaderControl) :
    Valid checksum (sample_device backup (primary_at sample_part)).control := rfl

/-- A backup with the contents of the primary. -/
theorem survives_iff_fresh : Survives checksum 0x1000 (sample_device (sample_control 5)) sample_part true := by
  refine (survives_iff sample_placed (sample_valid (sample_control 5))).mpr ?_
  intro _
  exact ⟨rfl,.inl rfl⟩

/-- A backup from before two attempts is what the next call works from. -/
theorem stale_backup_used :
    ¬ ∀ (crc32 : ControlBody → UInt32) (backup_offset : ℕ) (device : Device) (part_info : DiskPartition) (dec_tries : Bool),
      Placed part_info backup_offset → Valid crc32 (device (primary_at part_info)).control →
      Survives crc32 backup_offset device part_info dec_tries := by
  intro survives
  have valid := sample_valid (sample_control 7)
  refine stale_not_survives sample_placed valid sample_stores ?_
    (survives checksum 0x1000 (sample_device (sample_control 7)) sample_part true sample_placed valid)
  rintro ⟨_,same | same⟩
  · exact absurd (congrFun (congrArg (fun abc => abc.slot_info) same) 0) (by decide +kernel)
  · exact absurd (congrFun (congrArg (fun abc => abc.slot_info) same) 0) (by decide +kernel)

end UBoot.AndroidAb
