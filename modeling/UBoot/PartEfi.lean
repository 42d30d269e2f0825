import UBoot.Uuid

/-!
The GUID partition table, `disk/part_efi.c`: `gpt_restore` writes the headers and the entries for a
list of partitions, and `is_gpt_valid`, `part_get_info_efi` and `gpt_verify_partitions` read them
back. Blocks have 512 bytes, there are 128 entries, and the build stores UUIDs and type GUIDs. The
device reads and writes all its blocks; allocations succeed. `crc32` and the names of GUIDs are
arguments.
-/
namespace UBoot.PartEfi
open UBoot.Memory UBoot.Buffers UBoot.Uuid List Option

def EPERM : ℤ := 1
def EIO : ℤ := 5
def E2BIG : ℤ := 7
def EINVAL : ℤ := 22
def ENOSPC : ℤ := 28

def GPT_HEADER_SIGNATURE_UBOOT : ℕ := 0x5452415020494645
def GPT_HEADER_CHROMEOS_IGNORE : ℕ := 0x454d45524f4e4749
def GPT_HEADER_REVISION_V1 : ℕ := 0x00010000
def GPT_PRIMARY_PARTITION_TABLE_LBA : ℕ := 1
def GPT_ENTRY_NUMBERS : ℕ := 128
def MSDOS_MBR_BOOT_CODE_SIZE : ℕ := 440
def PARTNAME_SZ : ℕ := 36
def PART_NAME_LEN : ℕ := 32
def PART_BOOTABLE : ℕ := 1
def PART_EFI_SYSTEM_PARTITION : ℕ := 2

/-- `sizeof(gpt_header)` and `sizeof(gpt_entry)`. -/
def gpt_header_size : ℕ := 92
def gpt_entry_size : ℕ := 128

def blksz : ℕ := 512

def zero_guid : EfiGuid := ⟨List.replicate 16 0,rfl⟩

def partition_basic_data_guid : EfiGuid :=
  ⟨[0xa2,0xa0,0xd0,0xeb,0xe5,0xb9,0x33,0x44,0x87,0xc0,0x68,0xb6,0xb7,0x26,0x99,0xc7],rfl⟩

def system_guid : EfiGuid :=
  ⟨[0x28,0x73,0x2a,0xc1,0x1f,0xf8,0xd2,0x11,0xba,0x4b,0x00,0xa0,0xc9,0x3e,0xc9,0x3b],rfl⟩

/-- `struct disk_partition` as `gpt_restore` gets it: block numbers have 64 bits, and the
    name is a string. -/
structure DiskPartition where
  start : ℕ
  size : ℕ
  name : List UInt8
  bootable : ℕ
  uuid : List Char
  type_guid : List Char
  start_lt : start < 2^64
  size_lt : size < 2^64
  name_size : name.length = PART_NAME_LEN
  terminated : 0 ∈ name

structure GptHeader where
  signature : ℕ
  revision : ℕ
  header_size : ℕ
  header_crc32 : ℕ
  reserved1 : ℕ
  my_lba : ℕ
  alternate_lba : ℕ
  first_usable_lba : ℕ
  last_usable_lba : ℕ
  disk_guid : EfiGuid
  partition_entry_lba : ℕ
  num_partition_entries : ℕ
  sizeof_partition_entry : ℕ
  partition_entry_array_crc32 : ℕ
deriving DecidableEq

structure GptEntry where
  partition_type_guid : EfiGuid
  unique_partition_guid : EfiGuid
  starting_lba : ℕ
  ending_lba : ℕ
  attributes : ℕ
  partition_name : List ℕ
deriving DecidableEq

def header_bytes (h : GptHeader) : List UInt8 :=
  little 8 h.signature ++ (little 4 h.revision ++ (little 4 h.header_size ++ (little 4 h.header_crc32 ++
    (little 4 h.reserved1 ++ (little 8 h.my_lba ++ (little 8 h.alternate_lba ++ (little 8 h.first_usable_lba ++
      (little 8 h.last_usable_lba ++ (h.disk_guid.b ++ (little 8 h.partition_entry_lba ++
        (little 4 h.num_partition_entries ++ (little 4 h.sizeof_partition_entry ++
          little 4 h.partition_entry_array_crc32))))))))))))

def entry_bytes (e : GptEntry) : List UInt8 :=
  e.partition_type_guid.b ++ (e.unique_partition_guid.b ++ (little 8 e.starting_lba ++ (little 8 e.ending_lba ++
    (little 8 e.attributes ++ e.partition_name.flatMap (little 2)))))

def guid_at (buffer : ℕ → UInt8) (offset : ℕ) : EfiGuid := ⟨load buffer offset 16,load_length _ _ _⟩

def header_at (buffer : ℕ → UInt8) : GptHeader :=
  ⟨field buffer 0 8,field buffer 8 4,field buffer 12 4,field buffer 16 4,field buffer 20 4,field buffer 24 8,
    field buffer 32 8,field buffer 40 8,field buffer 48 8,guid_at buffer 56,field buffer 72 8,field buffer 80 4,
    field buffer 84 4,field buffer 88 4⟩

def entry_at (buffer : ℕ → UInt8) (offset : ℕ) : GptEntry :=
  ⟨guid_at buffer offset,guid_at buffer (offset+16),field buffer (offset+32) 8,field buffer (offset+40) 8,
    field buffer (offset+48) 8,(List.range PARTNAME_SZ).map fun k => field buffer (offset+56+2*k) 2⟩

/-- A block device; the number of its blocks has 64 bits. -/
structure BlkDesc where
  lba : ℕ
  bytes : ℕ → UInt8
  lba_lt : lba < 2^64

def blk_dread (desc : BlkDesc) (start blkcnt : ℕ) : Option (ℕ → UInt8) :=
  if start+blkcnt ≤ desc.lba then some fun i => desc.bytes (start*blksz+i) else none

def blk_dwrite (desc : BlkDesc) (start blkcnt : ℕ) (buffer : List UInt8) : Option BlkDesc :=
  if start+blkcnt ≤ desc.lba then some { desc with bytes := store desc.bytes (start*blksz) buffer } else none

def BLOCK_CNT (size : ℕ) : ℕ := (size-1)/blksz+1

/-- The checksum, the names of GUIDs and where the build puts the entries, in bytes from
    the start of the device. -/
structure Build where
  crc32 : List UInt8 → UInt32
  uuid_guid_get_bin : List Char → Option EfiGuid
  entries_offset : Option ℕ

def partition_entries_offset (build : Build) : ℕ :=
  let offset_blks := match build.entries_offset with
    | some offset_bytes => BLOCK_CNT offset_bytes*blksz%2^32/blksz
    | none => 2
  if offset_blks < 2 then 2 else offset_blks

def set_protective_mbr (desc : BlkDesc) : Option BlkDesc :=
  match blk_dread desc 0 1 with
  | none => none
  | some p_mbr =>
    blk_dwrite desc 0 1 (load p_mbr 0 MSDOS_MBR_BOOT_CODE_SIZE ++ List.replicate 6 0 ++
      ([0,0,0,0,0xee,0,0,0] ++ little 4 1 ++ little 4 (desc.lba%2^32+(2^32-1))) ++ List.replicate 48 0 ++ [0x55,0xaa])

/-- `gpt_fill_header`; the unused rest of the block is zero. -/
def gpt_fill_header (build : Build) (desc : BlkDesc) (str_guid : List Char) : Option GptHeader :=
  (uuid_str_to_bin build.uuid_guid_get_bin str_guid).map fun disk_guid =>
    { signature := GPT_HEADER_SIGNATURE_UBOOT
      revision := GPT_HEADER_REVISION_V1
      header_size := gpt_header_size
      header_crc32 := 0
      reserved1 := 0
      my_lba := 1
      alternate_lba := desc.lba-1
      first_usable_lba := partition_entries_offset build+32
      last_usable_lba := desc.lba-34
      disk_guid
      partition_entry_lba := partition_entries_offset build
      num_partition_entries := GPT_ENTRY_NUMBERS
      sizeof_partition_entry := gpt_entry_size
      partition_entry_array_crc32 := 0 }

def type_guid_of (build : Build) (p : DiskPartition) : Option EfiGuid :=
  if p.type_guid ≠ [] then uuid_str_to_bin build.uuid_guid_get_bin p.type_guid else some partition_basic_data_guid

/-- The name of a partition as 16 bit characters. -/
def efi_name (name : List UInt8) : List ℕ :=
  (name.take (min PART_NAME_LEN PARTNAME_SZ)).map UInt8.toNat ++ List.replicate (PARTNAME_SZ-PART_NAME_LEN) 0

/-- The partition overlaps the header or the entries; ends are taken in 64 bits. -/
def Overlaps (h : GptHeader) (start size : ℕ) : Prop :=
  let hdr_start := h.my_lba
  let hdr_end := hdr_start+1
  let pte_start := h.partition_entry_lba
  let pte_end := pte_start+h.num_partition_entries*h.sizeof_partition_entry/blksz
  start < hdr_end ∧ hdr_start < (start+size)%2^64 ∨ start < pte_end ∧ pte_start < (start+size)%2^64

instance (h : GptHeader) (start size : ℕ) : Decidable (Overlaps h start size) := inferInstanceAs (Decidable (_ ∨ _))

/-- The loop of `gpt_fill_pte`, from an offset on. -/
def fill_ptes (build : Build) (h : GptHeader) : ℕ → List DiskPartition → Except ℤ (List GptEntry)
  | _, [] => .ok []
  | offset, p :: rest =>
    let start := if p.start ≠ 0 then p.start else offset
    let offset := (start+p.size)%2^64
    if Overlaps h start p.size then .error (-ENOSPC)
    else if h.last_usable_lba+1 < offset then .error (-E2BIG)
    else
      -- extend the last partition to maximum
      let ending_lba := if rest.isEmpty ∧ p.size = 0 then h.last_usable_lba else (offset+(2^64-1))%2^64
      match type_guid_of build p, uuid_str_to_bin build.uuid_guid_get_bin p.uuid with
      | some partition_type_guid, some unique_partition_guid =>
        let attributes := if p.bootable%2 = 1 then 4 else 0
        (fill_ptes build h offset rest).map fun entries =>
          ⟨partition_type_guid,unique_partition_guid,start,ending_lba,attributes,efi_name p.name⟩ :: entries
      | _, _ => .error (-EINVAL)

def zero_entry : GptEntry := ⟨zero_guid,zero_guid,0,0,0,List.replicate PARTNAME_SZ 0⟩

def gpt_fill_pte (build : Build) (h : GptHeader) (partitions : List DiskPartition) : Except ℤ (List GptEntry) :=
  (fill_ptes build h h.first_usable_lba partitions).map fun entries =>
    entries ++ List.replicate (GPT_ENTRY_NUMBERS-entries.length) zero_entry

def header_crc (build : Build) (h : GptHeader) : ℕ := (build.crc32 ((header_bytes h).take h.header_size)).toNat

def header_block (h : GptHeader) : List UInt8 := header_bytes h ++ List.replicate (blksz-gpt_header_size) 0

def prepare_backup_gpt_header (build : Build) (h : GptHeader) : GptHeader :=
  let h := { h with
    my_lba := h.alternate_lba
    alternate_lba := h.my_lba
    partition_entry_lba := h.last_usable_lba+1
    header_crc32 := 0 }
  { h with header_crc32 := header_crc build h }

/-- `write_gpt_table`, which leaves the device as far as it came. -/
def write_gpt_table (build : Build) (desc : BlkDesc) (h : GptHeader) (entries : List GptEntry) : ℤ × BlkDesc :=
  let gpt_e := entries.flatMap entry_bytes
  let pte_blk_cnt := BLOCK_CNT (h.num_partition_entries*gpt_entry_size)
  match set_protective_mbr desc with
  | none => (- EIO,desc)
  | some desc =>
    let h := { h with partition_entry_array_crc32 := (build.crc32 (gpt_e.take (h.num_partition_entries*h.sizeof_partition_entry))).toNat }
    let h := { h with header_crc32 := header_crc build h }
    match blk_dwrite desc 1 1 (header_block h) with
    | none => (- EIO,desc)
    | some desc =>
      match blk_dwrite desc h.partition_entry_lba pte_blk_cnt gpt_e with
      | none => (- EIO,desc)
      | some desc =>
        let h := prepare_backup_gpt_header build h
        match blk_dwrite desc (h.last_usable_lba+1) pte_blk_cnt gpt_e with
        | none => (- EIO,desc)
        | some desc =>
          match blk_dwrite desc h.my_lba 1 (header_block h) with
          | none => (- EIO,desc)
          | some desc => (0,desc)

def gpt_restore (build : Build) (desc : BlkDesc) (str_disk_guid : List Char) (partitions : List DiskPartition) : ℤ × BlkDesc :=
  match gpt_fill_header build desc str_disk_guid with
  | none => (-1,desc)
  | some gpt_h =>
    match gpt_fill_pte build gpt_h partitions with
    | .error ret => (ret,desc)
    | .ok gpt_e => write_gpt_table build desc gpt_h gpt_e

def validate_gpt_header (build : Build) (buffer : ℕ → UInt8) (lba lastlba : ℕ) : Prop :=
  let h := header_at buffer
  h.signature = GPT_HEADER_SIGNATURE_UBOOT ∧
    (build.crc32 (load (store buffer 16 [0,0,0,0]) 0 h.header_size)).toNat = h.header_crc32 ∧ h.my_lba = lba ∧
    h.first_usable_lba ≤ lastlba ∧ h.last_usable_lba ≤ lastlba

instance (build : Build) (buffer : ℕ → UInt8) (lba lastlba : ℕ) : Decidable (validate_gpt_header build buffer lba lastlba) :=
  inferInstanceAs (Decidable (_ ∧ _))

def validate_gpt_entries (build : Build) (h : GptHeader) (gpt_e : ℕ → UInt8) : Prop :=
  (build.crc32 (load gpt_e 0 (h.num_partition_entries*h.sizeof_partition_entry%2^32))).toNat = h.partition_entry_array_crc32

instance (build : Build) (h : GptHeader) (gpt_e : ℕ → UInt8) : Decidable (validate_gpt_entries build h gpt_e) :=
  inferInstanceAs (Decidable (_ = _))

def alloc_read_gpt_entries (desc : BlkDesc) (h : GptHeader) : Option (ℕ → UInt8) :=
  let count := h.num_partition_entries*h.sizeof_partition_entry%2^32
  if count = 0 then none else blk_dread desc h.partition_entry_lba (BLOCK_CNT count)

/-- What `is_gpt_valid` says, with the header and the entries where it returns 1. -/
inductive GptValid where
  | valid (h : GptHeader) (gpt_pte : ℕ → UInt8)
  | invalid
  | ignored

def is_gpt_valid (build : Build) (desc : BlkDesc) (lba : ℕ) : GptValid :=
  match blk_dread desc 0 1, blk_dread desc lba 1 with
  | some _, some pgpt_head =>
    if (header_at pgpt_head).signature = GPT_HEADER_CHROMEOS_IGNORE then .ignored
    else if ¬ validate_gpt_header build pgpt_head lba desc.lba then .invalid
    else
      match alloc_read_gpt_entries desc (header_at pgpt_head) with
      | none => .invalid
      | some gpt_pte =>
        if validate_gpt_entries build (header_at pgpt_head) gpt_pte then .valid (header_at pgpt_head) gpt_pte else .invalid
  | _, _ => .invalid

def find_valid_gpt (build : Build) (desc : BlkDesc) : Option (GptHeader × (ℕ → UInt8)) :=
  match is_gpt_valid build desc GPT_PRIMARY_PARTITION_TABLE_LBA with
  | .valid h gpt_pte => some (h,gpt_pte)
  | _ =>
    match is_gpt_valid build desc (desc.lba-1) with
    | .valid h gpt_pte => some (h,gpt_pte)
    | _ => none

def part_get_gpt_pte (build : Build) (desc : BlkDesc) (part : ℕ) : Except ℤ GptEntry :=
  if part < 1 then .error (-EINVAL)
  else
    match find_valid_gpt build desc with
    | none => .error (-EINVAL)
    | some (gpt_head,gpt_pte) =>
      let pte := entry_at gpt_pte (gpt_entry_size*(part-1))
      -- the entry is not read if there are not so many
      if gpt_head.num_partition_entries < part then .error (-EPERM)
      else if pte.partition_type_guid = zero_guid then .error (-EPERM)
      else .ok pte

/-- `isprint`: what `_ctype` has as a letter, digit, punctuation or space. -/
def isprint (c : ℕ) : Bool := 32 ≤ c ∧ c < 127 ∨ 160 ≤ c

/-- `print_efiname`, up to the end of the string. -/
def print_efiname (partition_name : List ℕ) : List UInt8 :=
  (partition_name.map fun u => if u%256 ≠ 0 ∧ ¬ isprint (u%256) then 0x2e else .ofNat (u%256)).takeWhile (· ≠ 0)

structure PartitionInfo where
  start : ℕ
  size : ℕ
  name : List UInt8
  bootable : ℕ
  uuid : List Char
  type_guid : List Char
deriving DecidableEq

def get_bootable (p : GptEntry) : ℕ :=
  (if p.partition_type_guid = system_guid then PART_EFI_SYSTEM_PARTITION else 0)+
    if p.attributes/4%2 = 1 then PART_BOOTABLE else 0

def part_get_info_efi (build : Build) (desc : BlkDesc) (part : ℕ) : Except ℤ PartitionInfo :=
  (part_get_gpt_pte build desc part).map fun gpt_pte =>
    ⟨gpt_pte.starting_lba,(gpt_pte.ending_lba+1+(2^64-gpt_pte.starting_lba))%2^64,
      (print_efiname gpt_pte.partition_name).take (PART_NAME_LEN-1),get_bootable gpt_pte,
      uuid_bin_to_str gpt_pte.unique_partition_guid,uuid_bin_to_str gpt_pte.partition_type_guid⟩

def gpt_verify_headers (build : Build) (desc : BlkDesc) : Option (GptHeader × (ℕ → UInt8)) :=
  match is_gpt_valid build desc GPT_PRIMARY_PARTITION_TABLE_LBA with
  | .valid gpt_head _ =>
    if gpt_head.alternate_lba ≠ desc.lba-1 then none
    else
      match is_gpt_valid build desc (desc.lba-1) with
      | .valid gpt_head gpt_pte => some (gpt_head,gpt_pte)
      | _ => none
  | _ => none

/-- `gpt_convert_efi_name_to_char`: the low bytes up to the first that is zero, of which
    there is one behind the name. -/
def gpt_convert_efi_name_to_char (es : List ℕ) : List UInt8 := (es.map fun u => UInt8.ofNat (u%256)).takeWhile (· ≠ 0)

def c_string (name : List UInt8) : List UInt8 := name.takeWhile (· ≠ 0)

/-- A round of the loop of `gpt_verify_partitions` that finds nothing wrong. -/
def PartitionVerified (gpt_e : GptEntry) (p : DiskPartition) (last : Bool) : Prop :=
  let gpt_part_size := (gpt_e.ending_lba+(2^64-gpt_e.starting_lba)+1)%2^64
  (gpt_convert_efi_name_to_char gpt_e.partition_name).take PART_NAME_LEN = (c_string p.name).take PART_NAME_LEN ∧
    if gpt_part_size ≠ p.size then last ∧ p.size = 0 else p.start = 0 ∨ gpt_e.starting_lba = p.start

instance (gpt_e : GptEntry) (p : DiskPartition) (last : Bool) : Decidable (PartitionVerified gpt_e p last) :=
  inferInstanceAs (Decidable (_ ∧ _))

def gpt_verify_partitions (build : Build) (desc : BlkDesc) (partitions : List DiskPartition) : ℤ :=
  match gpt_verify_headers build desc with
  | none => -1
  | some (gpt_head,gpt_pte) =>
    if partitions.zipIdx.all fun (p,i) => i ≠ gpt_head.num_partition_entries ∧
        PartitionVerified (entry_at gpt_pte (gpt_entry_size*i)) p (i+1 = partitions.length) then 0
    else -1

/-! ## Structures in buffers -/

structure HeaderFits (h : GptHeader) : Prop where
  signature : h.signature < 256^8
  revision : h.revision < 256^4
  header_size : h.header_size < 256^4
  header_crc32 : h.header_crc32 < 256^4
  reserved1 : h.reserved1 < 256^4
  my_lba : h.my_lba < 256^8
  alternate_lba : h.alternate_lba < 256^8
  first_usable_lba : h.first_usable_lba < 256^8
  last_usable_lba : h.last_usable_lba < 256^8
  partition_entry_lba : h.partition_entry_lba < 256^8
  num_partition_entries : h.num_partition_entries < 256^4
  sizeof_partition_entry : h.sizeof_partition_entry < 256^4
  partition_entry_array_crc32 : h.partition_entry_array_crc32 < 256^4

structure EntryFits (e : GptEntry) : Prop where
  starting_lba : e.starting_lba < 256^8
  ending_lba : e.ending_lba < 256^8
  attributes : e.attributes < 256^8
  name_size : e.partition_name.length = PARTNAME_SZ
  partition_name : ∀ u ∈ e.partition_name, u < 256^2

theorem header_bytes_length (h : GptHeader) : (header_bytes h).length = gpt_header_size := by
  simp [header_bytes,h.disk_guid.size,gpt_header_size]

theorem entry_bytes_length {e : GptEntry} (fits : EntryFits e) : (entry_bytes e).length = gpt_entry_size := by
  simp [entry_bytes,e.partition_type_guid.size,e.unique_partition_guid.size,fits.name_size,
    PARTNAME_SZ,gpt_entry_size]

variable {i offset : ℕ} {str_guid : List Char}

theorem guid_at_holds {buffer : ℕ → UInt8} {guid : EfiGuid} (holds : Holds buffer offset guid.b) :
    guid_at buffer offset = guid := by
  obtain ⟨bytes,size⟩ := guid
  simp only [Holds] at holds
  simp only [guid_at,EfiGuid.mk.injEq]
  rw [← size]
  exact holds

theorem header_at_holds {buffer : ℕ → UInt8} {h : GptHeader} (holds : Holds buffer 0 (header_bytes h)) (fits : HeaderFits h) :
    header_at buffer = h := by
  rw [header_bytes] at holds
  simp only [holds_append,little_length,h.disk_guid.size,zero_add,Nat.reduceAdd] at holds
  obtain ⟨signature,revision,size,crc,reserved,my,alternate,first,last,guid,entries,num,sizeof,array⟩ := holds
  rw [header_at,field_little signature fits.signature,field_little revision fits.revision,
    field_little size fits.header_size,field_little crc fits.header_crc32,field_little reserved fits.reserved1,
    field_little my fits.my_lba,field_little alternate fits.alternate_lba,field_little first fits.first_usable_lba,
    field_little last fits.last_usable_lba,guid_at_holds guid,field_little entries fits.partition_entry_lba,
    field_little num fits.num_partition_entries,field_little sizeof fits.sizeof_partition_entry,
    field_little array fits.partition_entry_array_crc32]

theorem fields_holds {buffer : ℕ → UInt8} {offset n : ℕ} {values : List ℕ} (holds : Holds buffer offset (values.flatMap (little n)))
    (fits : ∀ v ∈ values, v < 256^n) : (List.range values.length).map (fun k => field buffer (offset+n*k) n) = values := by
  induction values generalizing offset with
  | nil => rfl
  | cons v values ih =>
    rw [flatMap_cons,holds_append,little_length] at holds
    have later := ih holds.2 (fun u member => fits u (mem_cons_of_mem v member))
    rw [length_cons,range_succ_eq_map,map_cons,List.map_map,mul_zero,add_zero,
      field_little holds.1 (fits v mem_cons_self)]
    congr 1
    rw [← later]
    simp only [length_map,length_range]
    refine map_congr_left ?_
    intro k _
    simp only [Function.comp,Nat.succ_eq_add_one]
    congr 1
    ring

theorem entry_at_holds {buffer : ℕ → UInt8} {e : GptEntry} (holds : Holds buffer offset (entry_bytes e))
    (fits : EntryFits e) : entry_at buffer offset = e := by
  rw [entry_bytes] at holds
  simp only [holds_append,little_length,e.partition_type_guid.size,e.unique_partition_guid.size,add_assoc,
    Nat.reduceAdd] at holds
  obtain ⟨type,unique,start,ending,attributes,name⟩ := holds
  have names := fields_holds name fits.partition_name
  rw [fits.name_size] at names
  rw [entry_at,guid_at_holds type,guid_at_holds unique,field_little start fits.starting_lba,
    field_little ending fits.ending_lba,field_little attributes fits.attributes,names]

theorem entry_placed {buffer : ℕ → UInt8} {entries : List GptEntry}
    (holds : Holds buffer offset (entries.flatMap entry_bytes)) (fits : ∀ e ∈ entries, EntryFits e) {e : GptEntry}
    (at_i : entries[i]? = some e) : Holds buffer (offset+gpt_entry_size*i) (entry_bytes e) := by
  induction entries generalizing i offset with
  | nil => simp at at_i
  | cons first entries ih =>
    rw [flatMap_cons,holds_append,entry_bytes_length (fits first mem_cons_self)] at holds
    cases i with
    | zero =>
      rw [getElem?_cons_zero] at at_i
      rw [← Option.some.inj at_i,mul_zero,add_zero]
      exact holds.1
    | succ i =>
      rw [getElem?_cons_succ] at at_i
      have later := ih holds.2 (fun e member => fits e (mem_cons_of_mem first member)) at_i
      rwa [Nat.mul_succ,add_comm (gpt_entry_size*i),← add_assoc]

theorem entry_of_table {buffer : ℕ → UInt8} {entries : List GptEntry} (holds : Holds buffer 0 (entries.flatMap entry_bytes))
    (fits : ∀ e ∈ entries, EntryFits e) {e : GptEntry} (at_i : entries[i]? = some e) :
    entry_at buffer (gpt_entry_size*i) = e := by
  have placed := entry_placed holds fits at_i
  rw [zero_add] at placed
  exact entry_at_holds placed (fits e (mem_of_getElem? at_i))

theorem table_length {entries : List GptEntry} (fits : ∀ e ∈ entries, EntryFits e) :
    (entries.flatMap entry_bytes).length = gpt_entry_size*entries.length := by
  induction entries with
  | nil => rfl
  | cons e entries ih =>
    rw [flatMap_cons,length_append,entry_bytes_length (fits e mem_cons_self),
      ih (fun other member => fits other (mem_cons_of_mem e member)),length_cons,Nat.mul_succ,add_comm]

theorem header_block_length (h : GptHeader) : (header_block h).length = blksz := by
  rw [header_block,length_append,header_bytes_length,length_replicate]
  decide

/-! ## A valid table -/

/-- The header is checksummed and stands at its place, and its table is where it says. -/
structure Tabled (build : Build) (desc : BlkDesc) (lba : ℕ) (h : GptHeader) (entries : List GptEntry) : Prop where
  fits : HeaderFits h
  placed : Holds desc.bytes (lba*blksz) (header_block h)
  inside : lba < desc.lba
  signature : h.signature = GPT_HEADER_SIGNATURE_UBOOT
  header_size : h.header_size = gpt_header_size
  checksum : h.header_crc32 = header_crc build { h with header_crc32 := 0 }
  my_lba : h.my_lba = lba
  first : h.first_usable_lba ≤ desc.lba
  last : h.last_usable_lba ≤ desc.lba
  number : h.num_partition_entries = GPT_ENTRY_NUMBERS
  sizeof : h.sizeof_partition_entry = gpt_entry_size
  table_fits : ∀ e ∈ entries, EntryFits e
  table_size : entries.length = GPT_ENTRY_NUMBERS
  table : Holds desc.bytes (h.partition_entry_lba*blksz) (entries.flatMap entry_bytes)
  table_inside : h.partition_entry_lba+32 ≤ desc.lba
  array_checksum : h.partition_entry_array_crc32 = (build.crc32 (entries.flatMap entry_bytes)).toNat

theorem holds_shifted {bytes : ℕ → UInt8} {content : List UInt8} (holds : Holds bytes offset content) :
    Holds (fun i => bytes (offset+i)) 0 content := by
  rw [Holds] at holds ⊢
  conv_rhs => rw [← holds]
  refine load_congr ?_
  intro i _
  rw [zero_add]

/-- The header with its checksum cleared. -/
theorem cleared_holds {buffer : ℕ → UInt8} {h : GptHeader} (holds : Holds buffer 0 (header_bytes h)) :
    Holds (store buffer 16 [0,0,0,0]) 0 (header_bytes { h with header_crc32 := 0 }) := by
  have apart {offset : ℕ} {bytes : List UInt8} (holds : Holds buffer offset bytes)
      (away : offset+bytes.length ≤ 16 ∨ 20 ≤ offset) : Holds (store buffer 16 [0,0,0,0]) offset bytes :=
    (load_store_apart buffer away).trans holds
  have zero : Holds (store buffer 16 [0,0,0,0]) 16 (little 4 0) := load_store buffer 16 [0,0,0,0]
  rw [header_bytes] at holds ⊢
  simp only [holds_append,little_length,h.disk_guid.size,zero_add,Nat.reduceAdd] at holds ⊢
  obtain ⟨signature,revision,size,_,reserved,my,alternate,first,last,guid,entries,num,sizeof,array⟩ := holds
  exact ⟨apart signature (.inl (by simp)),apart revision (.inl (by simp)),apart size (.inl (by simp)),zero,
    apart reserved (.inr (by omega)),apart my (.inr (by omega)),apart alternate (.inr (by omega)),
    apart first (.inr (by omega)),apart last (.inr (by omega)),apart guid (.inr (by omega)),
    apart entries (.inr (by omega)),apart num (.inr (by omega)),apart sizeof (.inr (by omega)),
    apart array (.inr (by omega))⟩

theorem tabled_valid {build : Build} {desc : BlkDesc} {lba : ℕ} {h : GptHeader} {entries : List GptEntry}
    (tabled : Tabled build desc lba h entries) :
    is_gpt_valid build desc lba = .valid h (fun i => desc.bytes (h.partition_entry_lba*blksz+i)) := by
  have inside := tabled.inside
  have header_holds := (holds_append.mp (holds_shifted tabled.placed)).1
  have read := header_at_holds header_holds tabled.fits
  have length := table_length tabled.table_fits
  rw [tabled.table_size] at length
  have count : h.num_partition_entries*h.sizeof_partition_entry%2^32 = gpt_entry_size*GPT_ENTRY_NUMBERS := by
    rw [tabled.number,tabled.sizeof]
    decide
  have checked : validate_gpt_header build (fun i => desc.bytes (lba*blksz+i)) lba desc.lba := by
    unfold validate_gpt_header
    dsimp only
    rw [read]
    refine ⟨tabled.signature,?_,tabled.my_lba,tabled.first,tabled.last⟩
    have cleared := cleared_holds header_holds
    rw [Holds,header_bytes_length] at cleared
    rw [tabled.header_size,cleared,tabled.checksum,header_crc]
    dsimp only
    rw [tabled.header_size,take_of_length_le (by rw [header_bytes_length])]
  have table := holds_shifted tabled.table
  have entries_checked : validate_gpt_entries build h (fun i => desc.bytes (h.partition_entry_lba*blksz+i)) := by
    rw [Holds,length] at table
    rw [validate_gpt_entries,count,table,tabled.array_checksum]
  have first_block : blk_dread desc 0 1 = some fun i => desc.bytes (0*blksz+i) := if_pos (by omega)
  have header_block : blk_dread desc lba 1 = some fun i => desc.bytes (lba*blksz+i) := if_pos (by omega)
  have entries_read : alloc_read_gpt_entries desc h = some fun i => desc.bytes (h.partition_entry_lba*blksz+i) := by
    unfold alloc_read_gpt_entries
    rw [count,if_neg (by decide)]
    exact if_pos tabled.table_inside
  unfold is_gpt_valid
  rw [first_block,header_block]
  dsimp only
  rw [read,if_neg (by rw [tabled.signature]; decide),if_neg (not_not.mpr checked),entries_read]
  dsimp only
  rw [if_pos entries_checked]

/-! ## Writing -/

section
variable {build : Build} {desc : BlkDesc}

def primary_header (build : Build) (h : GptHeader) (entries : List GptEntry) : GptHeader :=
  let h := { h with partition_entry_array_crc32 := (build.crc32 (entries.flatMap entry_bytes)).toNat }
  { h with header_crc32 := header_crc build h }

def backup_header (build : Build) (h : GptHeader) (entries : List GptEntry) : GptHeader :=
  prepare_backup_gpt_header build (primary_header build h entries)

theorem entries_offset_bounds (build : Build) : 2 ≤ partition_entries_offset build ∧ partition_entries_offset build < 2^32 := by
  unfold partition_entries_offset
  dsimp only
  cases build.entries_offset with
  | none => decide
  | some offset_bytes =>
    dsimp only
    have small : BLOCK_CNT offset_bytes*blksz%2^32/blksz < 2^32 :=
      (Nat.div_le_self _ _).trans_lt (Nat.mod_lt _ (by decide))
    split
    · exact ⟨le_rfl,by decide⟩
    · next large => exact ⟨not_lt.mp large,small⟩

theorem crc_lt (crc : UInt32) : crc.toNat < 256^4 := crc.toNat_lt

theorem holds_store (bytes : ℕ → UInt8) (offset : ℕ) (content : List UInt8) : Holds (store bytes offset content) offset content :=
  load_store bytes offset content

theorem holds_store_apart {bytes : ℕ → UInt8} {offset place : ℕ} {content other : List UInt8} (holds : Holds bytes offset content)
    (apart : offset+content.length ≤ place ∨ place+other.length ≤ offset) : Holds (store bytes place other) offset content :=
  (load_store_apart bytes apart).trans holds

theorem blk_dwrite_inside {start blkcnt : ℕ} (inside : start+blkcnt ≤ desc.lba) (buffer : List UInt8) :
    blk_dwrite desc start blkcnt buffer = some { desc with bytes := store desc.bytes (start*blksz) buffer } := if_pos inside

/-- The device after the five writes of `write_gpt_table`. -/
def written (desc : BlkDesc) (p_mbr : List UInt8) (primary backup : GptHeader) (entries : List GptEntry) : BlkDesc :=
  let gpt_e := entries.flatMap entry_bytes
  { desc with
    bytes := store (store (store (store (store desc.bytes (0*blksz) p_mbr) (1*blksz) (header_block primary))
      (primary.partition_entry_lba*blksz) gpt_e) (backup.partition_entry_lba*blksz) gpt_e)
      (backup.my_lba*blksz) (header_block backup) }

variable {h : GptHeader} {entries : List GptEntry}

theorem write_gpt_table_written (filled : gpt_fill_header build desc str_guid = some h)
    (room : partition_entries_offset build+65 ≤ desc.lba) (fits : ∀ e ∈ entries, EntryFits e)
    (number : entries.length = GPT_ENTRY_NUMBERS) :
    ∃ p_mbr, write_gpt_table build desc h entries =
      (0,written desc p_mbr (primary_header build h entries) (backup_header build h entries) entries) := by
  obtain ⟨guid,_,rfl⟩ := map_eq_some_iff.mp filled
  have size := table_length fits
  rw [number] at size
  have offset := entries_offset_bounds build
  have blocks : BLOCK_CNT (GPT_ENTRY_NUMBERS*gpt_entry_size) = 32 := by decide
  have whole : (entries.flatMap entry_bytes).take (GPT_ENTRY_NUMBERS*gpt_entry_size) = entries.flatMap entry_bytes :=
    take_of_length_le (by rw [size,mul_comm])
  have mbr : ∃ p_mbr, set_protective_mbr desc = some { desc with bytes := store desc.bytes (0*blksz) p_mbr } := by
    unfold set_protective_mbr blk_dread
    rw [if_pos (by omega)]
    exact ⟨_,blk_dwrite_inside (by omega) _⟩
  obtain ⟨p_mbr,mbr⟩ := mbr
  refine ⟨p_mbr,?_⟩
  unfold write_gpt_table
  dsimp only
  rw [mbr,blocks,whole]
  dsimp only
  rw [blk_dwrite_inside (by dsimp only; omega)]
  dsimp only
  rw [blk_dwrite_inside (by dsimp only; omega)]
  dsimp only [prepare_backup_gpt_header]
  rw [blk_dwrite_inside (by dsimp only; omega)]
  dsimp only
  rw [blk_dwrite_inside (by dsimp only; omega)]
  rfl

theorem primary_fits (filled : gpt_fill_header build desc str_guid = some h) :
    HeaderFits (primary_header build h entries) := by
  obtain ⟨guid,_,rfl⟩ := map_eq_some_iff.mp filled
  have small := desc.lba_lt
  have offset := entries_offset_bounds build
  refine ⟨?_,?_,?_,crc_lt _,?_,?_,?_,?_,?_,?_,?_,?_,crc_lt _⟩ <;>
    simp only [primary_header,GPT_HEADER_SIGNATURE_UBOOT,GPT_HEADER_REVISION_V1,gpt_header_size,GPT_ENTRY_NUMBERS,
      gpt_entry_size] <;> omega

theorem backup_fits (filled : gpt_fill_header build desc str_guid = some h) :
    HeaderFits (backup_header build h entries) := by
  have primary : HeaderFits (primary_header build h entries) := primary_fits filled
  obtain ⟨guid,_,rfl⟩ := map_eq_some_iff.mp filled
  have small := desc.lba_lt
  refine ⟨primary.signature,primary.revision,primary.header_size,crc_lt _,primary.reserved1,primary.alternate_lba,
    primary.my_lba,primary.first_usable_lba,primary.last_usable_lba,?_,primary.num_partition_entries,
    primary.sizeof_partition_entry,primary.partition_entry_array_crc32⟩
  simp only [backup_header,primary_header,prepare_backup_gpt_header]
  omega

theorem write_gpt_table_tabled (filled : gpt_fill_header build desc str_guid = some h)
    (room : partition_entries_offset build+65 ≤ desc.lba) (fits : ∀ e ∈ entries, EntryFits e)
    (number : entries.length = GPT_ENTRY_NUMBERS) :
    ∃ desc', write_gpt_table build desc h entries = (0,desc') ∧ desc'.lba = desc.lba ∧
      Tabled build desc' 1 (primary_header build h entries) entries ∧
      Tabled build desc' (desc.lba-1) (backup_header build h entries) entries := by
  obtain ⟨p_mbr,run⟩ := write_gpt_table_written filled room fits number
  have primary : HeaderFits (primary_header build h entries) := primary_fits filled
  have backup : HeaderFits (backup_header build h entries) := backup_fits filled
  refine ⟨_,run,rfl,?_,?_⟩
  all_goals
    obtain ⟨guid,_,rfl⟩ := map_eq_some_iff.mp filled
    have size := table_length fits
    rw [number] at size
    have small := desc.lba_lt
    have offset := entries_offset_bounds build
    have block_size := header_block_length
    simp only [gpt_entry_size,GPT_ENTRY_NUMBERS,blksz] at size block_size
  · refine ⟨primary,?_,?_,rfl,rfl,rfl,rfl,?_,?_,rfl,rfl,fits,number,?_,?_,rfl⟩
    · -- the header is written before both tables
      refine holds_store_apart (holds_store_apart (holds_store_apart (holds_store _ _ _) (.inl ?_)) (.inl ?_)) (.inl ?_) <;>
        simp only [block_size,blksz,primary_header,backup_header,prepare_backup_gpt_header] <;> omega
    · simp only [written]
      omega
    · simp only [written,primary_header]
      omega
    · simp only [written,primary_header]
      omega
    · refine holds_store_apart (holds_store_apart (holds_store _ _ _) (.inl ?_)) (.inl ?_) <;>
        simp only [size,blksz,primary_header,backup_header,prepare_backup_gpt_header] <;> omega
    · simp only [written,primary_header]
      omega
  · refine ⟨backup,?_,?_,rfl,rfl,rfl,rfl,?_,?_,rfl,rfl,fits,number,?_,?_,rfl⟩
    · exact holds_store _ _ _
    · simp only [written]
      omega
    · simp only [written,primary_header,backup_header,prepare_backup_gpt_header]
      omega
    · simp only [written,primary_header,backup_header,prepare_backup_gpt_header]
      omega
    · refine holds_store_apart (holds_store _ _ _) (.inl ?_)
      simp only [size,blksz,primary_header,backup_header,prepare_backup_gpt_header]
      omega
    · simp only [written,primary_header,backup_header,prepare_backup_gpt_header]
      omega
end

/-! ## What is asked for -/

/-- The starts and sizes of the partitions: without a start a partition follows the one
    before, and the last one without a size reaches to the last usable block. -/
def laid_out (last_usable_lba : ℕ) : ℕ → List DiskPartition → List (ℕ × ℕ)
  | _, [] => []
  | offset, p :: rest =>
    let start := if p.start ≠ 0 then p.start else offset
    let size := if rest.isEmpty ∧ p.size = 0 then last_usable_lba+1-start else p.size
    (start,size) :: laid_out last_usable_lba ((start+p.size)%2^64) rest

def printed (name : List UInt8) : List UInt8 := (c_string name).map fun c => if isprint c.toNat then c else 0x2e

structure Filled (build : Build) (p : DiskPartition) (start size : ℕ) (last : Bool) (e : GptEntry) : Prop where
  fits : EntryFits e
  type_guid : type_guid_of build p = some e.partition_type_guid
  uuid : uuid_str_to_bin build.uuid_guid_get_bin p.uuid = some e.unique_partition_guid
  starting_lba : e.starting_lba = start
  ending_lba : (e.ending_lba+1)%2^64 = (start+size)%2^64
  attributes : e.attributes = if p.bootable%2 = 1 then 4 else 0
  name : e.partition_name = efi_name p.name
  start_lt : start < 2^64
  size_lt : size < 2^64
  asked_start : p.start = 0 ∨ start = p.start
  asked_size : size = p.size ∨ last ∧ p.size = 0

theorem efi_name_eq (p : DiskPartition) : efi_name p.name = p.name.map UInt8.toNat ++ replicate 4 0 := by
  rw [efi_name,take_of_length_le (by rw [p.name_size]; decide)]
  rfl

theorem efi_name_fits (p : DiskPartition) : (efi_name p.name).length = PARTNAME_SZ ∧ ∀ u ∈ efi_name p.name, u < 256^2 := by
  rw [efi_name_eq]
  constructor
  · rw [length_append,length_map,p.name_size,length_replicate]
    decide
  · intro u member
    rcases mem_append.mp member with letter | padding
    · obtain ⟨c,_,rfl⟩ := List.mem_map.mp letter
      have := c.toNat_lt
      omega
    · rw [eq_of_mem_replicate padding]
      decide

theorem partition_filled {build : Build} {last_usable_lba : ℕ} (last_lt : last_usable_lba+1 < 2^64) {p : DiskPartition} {start : ℕ}
    (start_lt : start < 2^64) (asked : p.start = 0 ∨ start = p.start) (inside : (start+p.size)%2^64 ≤ last_usable_lba+1)
    {type uuid : EfiGuid} (type_is : type_guid_of build p = some type) (uuid_is : uuid_str_to_bin build.uuid_guid_get_bin p.uuid = some uuid)
    (last : Bool) :
    Filled build p start (if last ∧ p.size = 0 then last_usable_lba+1-start else p.size) last
      ⟨type,uuid,start,if last ∧ p.size = 0 then last_usable_lba else ((start+p.size)%2^64+(2^64-1))%2^64,
        if p.bootable%2 = 1 then 4 else 0,efi_name p.name⟩ := by
  have size_lt := p.size_lt
  obtain ⟨name_size,name_fits⟩ := efi_name_fits p
  refine ⟨⟨?_,?_,?_,name_size,name_fits⟩,type_is,uuid_is,rfl,?_,rfl,rfl,start_lt,?_,asked,?_⟩
  · dsimp only
    omega
  · dsimp only
    split <;> omega
  · dsimp only
    split <;> omega
  · dsimp only
    split
    · next extended =>
      rw [extended.2] at inside
      congr 1
      omega
    · omega
  · split <;> omega
  · split
    · next extended => exact .inr extended
    · exact .inl rfl

theorem fill_ptes_filled {build : Build} {h : GptHeader} (last_lt : h.last_usable_lba+1 < 2^64) (offset_lt : offset < 2^64)
    {partitions : List DiskPartition} {entries : List GptEntry} (filled : fill_ptes build h offset partitions = .ok entries) :
    entries.length = partitions.length ∧ (laid_out h.last_usable_lba offset partitions).length = partitions.length ∧
      ∀ i p e start size, partitions[i]? = some p → entries[i]? = some e →
        (laid_out h.last_usable_lba offset partitions)[i]? = some (start,size) →
        Filled build p start size (i+1 = partitions.length) e := by
  induction partitions generalizing offset entries with
  | nil =>
    rw [fill_ptes] at filled
    cases filled
    exact ⟨rfl,rfl,by simp⟩
  | cons p rest ih =>
    rw [fill_ptes] at filled
    dsimp only at filled
    rw [laid_out.eq_def]
    dsimp only
    generalize begin : (if p.start ≠ 0 then p.start else offset) = start at filled ⊢
    have start_lt : start < 2^64 := by
      rw [← begin]
      split
      · exact p.start_lt
      · exact offset_lt
    have asked : p.start = 0 ∨ start = p.start := by
      by_cases zero : p.start = 0
      · exact .inl zero
      · exact .inr (by rw [← begin,if_pos zero])
    split at filled
    · cases filled
    split at filled
    · cases filled
    next inside =>
    split at filled
    · next type uuid type_is uuid_is =>
      obtain ⟨later,later_filled,rfl⟩ : ∃ later, fill_ptes build h ((start+p.size)%2^64) rest = .ok later ∧ _ :: later = entries := by
        cases run : fill_ptes build h ((start+p.size)%2^64) rest with
        | error ret =>
          rw [run] at filled
          cases filled
        | ok later =>
          rw [run] at filled
          exact ⟨later,rfl,Except.ok.inj filled⟩
      obtain ⟨length,laid_length,each⟩ := ih (Nat.mod_lt _ (by decide)) later_filled
      refine ⟨congrArg (·+1) length,congrArg (·+1) laid_length,?_⟩
      intro i q e begins size at_q at_e at_laid
      cases i with
      | zero =>
        rw [getElem?_cons_zero] at at_q at_e at_laid
        obtain rfl := Option.some.inj at_q
        obtain rfl := Option.some.inj at_e
        obtain ⟨rfl,rfl⟩ := Prod.mk.inj (Option.some.inj at_laid)
        have last : rest.isEmpty = decide (0+1 = (p :: rest).length) := by cases rest <;> simp
        rw [← last]
        exact partition_filled last_lt start_lt asked (not_lt.mp inside) type_is uuid_is rest.isEmpty
      | succ i =>
        rw [getElem?_cons_succ] at at_q at_e at_laid
        simpa using each i q e begins size at_q at_e at_laid
    · cases filled

theorem fill_ptes_error {build : Build} {h : GptHeader} {partitions : List DiskPartition} {ret : ℤ}
    (failed : fill_ptes build h offset partitions = .error ret) : ret ≠ 0 := by
  induction partitions generalizing offset with
  | nil => cases failed
  | cons p rest ih =>
    rw [fill_ptes] at failed
    dsimp only at failed
    generalize (if p.start ≠ 0 then p.start else offset) = start at failed
    split at failed
    · cases failed
      decide
    split at failed
    · cases failed
      decide
    · split at failed
      · cases run : fill_ptes build h ((start+p.size)%2^64) rest with
        | error later =>
          rw [run] at failed
          cases failed
          exact ih run
        | ok entries =>
          rw [run] at failed
          cases failed
      · cases failed
        decide

theorem zero_entry_fits : EntryFits zero_entry := by
  refine ⟨by decide,by decide,by decide,by decide,?_⟩
  decide

theorem padded_length {entries : List GptEntry} (number : entries.length ≤ GPT_ENTRY_NUMBERS) :
    (entries ++ replicate (GPT_ENTRY_NUMBERS-entries.length) zero_entry).length = GPT_ENTRY_NUMBERS := by
  rw [length_append,length_replicate]
  omega

/-! ## Reading it back -/

theorem c_string_length (p : DiskPartition) : (c_string p.name).length < PART_NAME_LEN := by
  have part : c_string p.name <+: p.name := List.takeWhile_prefix _
  have short := part.length_le
  rw [p.name_size] at short
  refine lt_of_le_of_ne short ?_
  intro full
  have whole := part.eq_of_length (full.trans p.name_size.symm)
  have zero : 0 ∈ c_string p.name := by
    rw [whole]
    exact p.terminated
  have nonzero := mem_takeWhile_imp zero
  simp at nonzero

theorem name_read (p : DiskPartition) {shown : ℕ → UInt8} (zeros : ∀ c : UInt8, shown c.toNat = 0 ↔ c = 0) :
    ((efi_name p.name).map shown).takeWhile (· ≠ 0) = (c_string p.name).map fun c => shown c.toNat := by
  have wide : efi_name p.name = (p.name ++ replicate 4 0).map UInt8.toNat := by
    rw [efi_name_eq,map_append,map_replicate]
    rfl
  have same : (fun c : UInt8 => decide (shown c.toNat ≠ 0)) = fun c => decide (c ≠ 0) := by
    funext c
    simp only [ne_eq,zeros c]
  have ends := c_string_length p
  rw [wide,List.map_map,takeWhile_map]
  have string : (p.name ++ replicate 4 0).takeWhile ((fun c : UInt8 => decide (c ≠ 0)) ∘ (shown ∘ UInt8.toNat)) = c_string p.name := by
    change (p.name ++ replicate 4 0).takeWhile (fun c : UInt8 => decide (shown c.toNat ≠ 0)) = c_string p.name
    rw [same,takeWhile_append]
    refine if_neg ?_
    rw [p.name_size]
    exact ends.ne
  rw [string]
  rfl

theorem low_byte (c : UInt8) : c.toNat%256 = c.toNat := Nat.mod_eq_of_lt c.toNat_lt

theorem toNat_zero_iff (c : UInt8) : c.toNat = 0 ↔ c = 0 := by
  rw [← UInt8.toNat_inj]
  rfl

theorem print_efiname_eq (p : DiskPartition) : (print_efiname (efi_name p.name)).take (PART_NAME_LEN-1) = printed p.name := by
  have ends := c_string_length p
  rw [print_efiname,name_read p,take_of_length_le (by rw [length_map]; omega),printed]
  · refine map_congr_left ?_
    intro c member
    have nonzero : c ≠ 0 := by simpa using mem_takeWhile_imp member
    simp only [low_byte,UInt8.ofNat_toNat,ne_eq,toNat_zero_iff]
    by_cases shown : isprint c.toNat <;> simp [nonzero,shown]
  · intro c
    simp only [low_byte,UInt8.ofNat_toNat,ne_eq,toNat_zero_iff]
    by_cases zero : c = 0
    · simp [zero]
    · by_cases shown : isprint c.toNat <;> simp [zero,shown]

theorem convert_eq (p : DiskPartition) : gpt_convert_efi_name_to_char (efi_name p.name) = c_string p.name := by
  rw [gpt_convert_efi_name_to_char,name_read p]
  · simp only [low_byte,UInt8.ofNat_toNat,List.map_id']
  · intro c
    rw [low_byte,UInt8.ofNat_toNat]

section
variable {build : Build} {desc : BlkDesc} {h : GptHeader} {entries : List GptEntry}

theorem tabled_found (tabled : Tabled build desc 1 h entries) :
    find_valid_gpt build desc = some (h,fun i => desc.bytes (h.partition_entry_lba*blksz+i)) := by
  unfold find_valid_gpt
  rw [GPT_PRIMARY_PARTITION_TABLE_LBA,tabled_valid tabled]

theorem tabled_pte (tabled : Tabled build desc 1 h entries) {e : GptEntry} (at_i : entries[i]? = some e) :
    part_get_gpt_pte build desc (i+1) = if e.partition_type_guid = zero_guid then .error (-EPERM) else .ok e := by
  have read := entry_of_table (holds_shifted tabled.table) tabled.table_fits at_i
  have few : i < entries.length := (List.getElem?_eq_some_iff.mp at_i).1
  rw [tabled.table_size] at few
  unfold part_get_gpt_pte
  rw [if_neg (by omega),tabled_found tabled]
  dsimp only
  rw [Nat.add_sub_cancel,read,tabled.number,if_neg (by omega)]

theorem tabled_beyond (tabled : Tabled build desc 1 h entries) {part : ℕ} (beyond : GPT_ENTRY_NUMBERS < part) :
    part_get_gpt_pte build desc part = .error (-EPERM) := by
  unfold part_get_gpt_pte
  rw [if_neg (by omega),tabled_found tabled]
  dsimp only
  rw [tabled.number,if_pos beyond]

variable {p : DiskPartition} {start size : ℕ} {last : Bool} {e : GptEntry}

theorem filled_size (filled : Filled build p start size last e) : (e.ending_lba+1+(2^64-e.starting_lba))%2^64 = size := by
  have ending := filled.ending_lba
  have start_lt := filled.start_lt
  have size_lt := filled.size_lt
  rw [filled.starting_lba]
  omega

theorem filled_bootable (filled : Filled build p start size last e) :
    get_bootable e = (if e.partition_type_guid = system_guid then PART_EFI_SYSTEM_PARTITION else 0)+p.bootable%2 := by
  unfold get_bootable
  rw [filled.attributes]
  congr 1
  rcases Nat.mod_two_eq_zero_or_one p.bootable with even | odd
  · rw [even]
    decide
  · rw [odd]
    decide

theorem filled_verified (filled : Filled build p start size last e) : PartitionVerified e p last := by
  have read_size : (e.ending_lba+(2^64-e.starting_lba)+1)%2^64 = size := by
    rw [← filled_size filled]
    congr 1
    omega
  unfold PartitionVerified
  dsimp only
  rw [read_size,filled.name,convert_eq]
  refine ⟨rfl,?_⟩
  split
  · next different => exact filled.asked_size.resolve_left different
  · rw [filled.starting_lba]
    exact filled.asked_start

/-- The partition at a place of the list is filled in at its place of the table, with the
    start and the size it is laid out with. -/
def FilledAt (build : Build) (first last_usable_lba : ℕ) (partitions : List DiskPartition) (table : List GptEntry) : Prop :=
  ∀ i p, partitions[i]? = some p → ∃ start size e, (laid_out last_usable_lba first partitions)[i]? = some (start,size) ∧
    table[i]? = some e ∧ Filled build p start size (i+1 = partitions.length) e

/-- What is on the device after a successful `gpt_restore`. -/
structure Restored (build : Build) (lba : ℕ) (partitions : List DiskPartition) (desc : BlkDesc) (primary backup : GptHeader)
    (table : List GptEntry) : Prop where
  blocks : desc.lba = lba
  first : Tabled build desc 1 primary table
  second : Tabled build desc (lba-1) backup table
  alternate : primary.alternate_lba = lba-1
  filled : FilledAt build (partition_entries_offset build+32) (lba-34) partitions table
  unused : ∀ i, partitions.length ≤ i → i < GPT_ENTRY_NUMBERS → table[i]? = some zero_entry

variable {str_disk_guid : List Char} {partitions : List DiskPartition} {desc' : BlkDesc}

theorem gpt_restore_filled (room : partition_entries_offset build+65 ≤ desc.lba) (number : partitions.length ≤ GPT_ENTRY_NUMBERS)
    (header : gpt_fill_header build desc str_disk_guid = some h) (fill : fill_ptes build h h.first_usable_lba partitions = .ok entries) :
    ∃ desc' primary backup table, gpt_restore build desc str_disk_guid partitions = (0,desc') ∧
      Restored build desc.lba partitions desc' primary backup table := by
  have usable : h.last_usable_lba = desc.lba-34 ∧ h.first_usable_lba = partition_entries_offset build+32 ∧
      h.alternate_lba = desc.lba-1 := by
    obtain ⟨guid,_,rfl⟩ := map_eq_some_iff.mp header
    exact ⟨rfl,rfl,rfl⟩
  have small := desc.lba_lt
  have offset := entries_offset_bounds build
  obtain ⟨length,laid_length,filled⟩ := fill_ptes_filled (by omega) (by omega) fill
  rw [usable.1,usable.2.1] at laid_length filled
  have each : ∀ i (inside : i < partitions.length), ∃ start size,
      (laid_out (desc.lba-34) (partition_entries_offset build+32) partitions)[i]? = some (start,size) ∧
      Filled build partitions[i] start size (i+1 = partitions.length) entries[i] := by
    intro i inside
    obtain ⟨⟨start,size⟩,at_laid⟩ : ∃ place,
        (laid_out (desc.lba-34) (partition_entries_offset build+32) partitions)[i]? = some place :=
      ⟨_,getElem?_eq_getElem (by omega)⟩
    exact ⟨start,size,at_laid,filled i _ _ start size (getElem?_eq_getElem inside) (getElem?_eq_getElem (by omega)) at_laid⟩
  have fits : ∀ e ∈ entries ++ replicate (GPT_ENTRY_NUMBERS-entries.length) zero_entry, EntryFits e := by
    intro e member
    rcases mem_append.mp member with written | padding
    · obtain ⟨i,inside,rfl⟩ := mem_iff_getElem.mp written
      obtain ⟨start,size,_,here⟩ := each i (by omega)
      exact here.fits
    · rw [eq_of_mem_replicate padding]
      exact zero_entry_fits
  obtain ⟨device,run,same,primary,backup⟩ := write_gpt_table_tabled header room fits (padded_length (by omega))
  refine ⟨device,_,_,_,?_,same,primary,backup,usable.2.2,?_,?_⟩
  · unfold gpt_restore gpt_fill_pte
    rw [header]
    dsimp only
    rw [fill]
    exact run
  · intro i p at_p
    obtain ⟨inside,rfl⟩ := List.getElem?_eq_some_iff.mp at_p
    obtain ⟨start,size,at_laid,here⟩ := each i inside
    refine ⟨start,size,_,at_laid,?_,here⟩
    rw [getElem?_append_left (by omega)]
    exact getElem?_eq_getElem (by omega)
  · intro i beyond few
    rw [getElem?_append_right (by omega),getElem?_replicate,if_pos (by omega)]

theorem gpt_restore_tabled (room : partition_entries_offset build+65 ≤ desc.lba) (number : partitions.length ≤ GPT_ENTRY_NUMBERS)
    (restored : gpt_restore build desc str_disk_guid partitions = (0,desc')) :
    ∃ primary backup table, Restored build desc.lba partitions desc' primary backup table := by
  cases header : gpt_fill_header build desc str_disk_guid with
  | none =>
    unfold gpt_restore at restored
    rw [header] at restored
    simp at restored
  | some h =>
    cases fill : fill_ptes build h h.first_usable_lba partitions with
    | error ret =>
      unfold gpt_restore gpt_fill_pte at restored
      rw [header] at restored
      dsimp only at restored
      rw [fill] at restored
      exact absurd (congrArg Prod.fst restored) (fill_ptes_error fill)
    | ok entries =>
      obtain ⟨device,primary,backup,table,run,here⟩ := gpt_restore_filled room number header fill
      rw [restored] at run
      obtain rfl := (Prod.mk.inj run).2
      exact ⟨primary,backup,table,here⟩

def info_of (p : DiskPartition) (start size : ℕ) (uuid type_guid : EfiGuid) : PartitionInfo :=
  ⟨start,size,printed p.name,(if type_guid = system_guid then PART_EFI_SYSTEM_PARTITION else 0)+p.bootable%2,
    uuid_bin_to_str uuid,uuid_bin_to_str type_guid⟩

variable {lba : ℕ} {primary backup : GptHeader} {table : List GptEntry}

theorem info_of_partition (restored : Restored build lba partitions desc primary backup table) {i : ℕ}
    (at_p : partitions[i]? = some p) :
    ∃ start size uuid type_guid, (laid_out (lba-34) (partition_entries_offset build+32) partitions)[i]? = some (start,size) ∧
      uuid_str_to_bin build.uuid_guid_get_bin p.uuid = some uuid ∧ type_guid_of build p = some type_guid ∧
      part_get_info_efi build desc (i+1) =
        if type_guid = zero_guid then .error (-EPERM) else .ok (info_of p start size uuid type_guid) := by
  obtain ⟨start,size,e,at_laid,at_e,here⟩ := restored.filled i p at_p
  refine ⟨start,size,_,_,at_laid,here.uuid,here.type_guid,?_⟩
  unfold part_get_info_efi
  rw [tabled_pte restored.first at_e]
  split
  · rfl
  · simp only [Except.map,info_of]
    rw [filled_size here,filled_bootable here,here.name,print_efiname_eq,here.starting_lba]

theorem others_unused (restored : Restored build lba partitions desc primary backup table) {part : ℕ}
    (beyond : partitions.length < part) : part_get_info_efi build desc part = .error (-EPERM) := by
  unfold part_get_info_efi
  by_cases many : GPT_ENTRY_NUMBERS < part
  · rw [tabled_beyond restored.first many]
    rfl
  · obtain ⟨i,rfl⟩ : ∃ i, part = i+1 := ⟨part-1,by omega⟩
    rw [tabled_pte restored.first (restored.unused i (by omega) (by omega))]
    rfl

theorem partitions_verified (restored : Restored build lba partitions desc primary backup table)
    (number : partitions.length ≤ GPT_ENTRY_NUMBERS) : gpt_verify_partitions build desc partitions = 0 := by
  have checked : gpt_verify_headers build desc = some (backup,fun i => desc.bytes (backup.partition_entry_lba*blksz+i)) := by
    unfold gpt_verify_headers
    rw [GPT_PRIMARY_PARTITION_TABLE_LBA,tabled_valid restored.first]
    dsimp only
    rw [restored.alternate,restored.blocks,if_neg (by simp),tabled_valid restored.second]
  unfold gpt_verify_partitions
  rw [checked]
  dsimp only
  refine if_pos ?_
  rw [List.all_eq_true]
  rintro ⟨p,i⟩ member
  have at_p : partitions[i]? = some p := mem_zipIdx_iff_getElem?.mp member
  have inside : i < partitions.length := (List.getElem?_eq_some_iff.mp at_p).1
  obtain ⟨start,size,e,_,at_e,here⟩ := restored.filled i p at_p
  have read := entry_of_table (holds_shifted restored.second.table) restored.second.table_fits at_e
  simp only [decide_eq_true_eq]
  rw [read,restored.second.number]
  exact ⟨by omega,filled_verified here⟩

theorem uuid_text {s : List Char} {uuid : EfiGuid} {names : List Char → Option EfiGuid}
    (is : uuid_str_to_bin names s = some uuid) (valid : uuid_str_valid s) : uuid_bin_to_str uuid = s.map tolower := by
  rw [uuid_str_to_bin,if_pos valid] at is
  rw [← Option.some.inj is,text_read_back valid]

/-- What is written is read back: both tables are valid, each partition has what was asked
    for (its start and size where these were left open, its name as it is printed), every
    other entry is unused, and the partitions are verified. A partition whose type GUID is
    zero is unused as well. -/
theorem gpt_read_back (room : partition_entries_offset build+66 ≤ desc.lba) (number : partitions.length ≤ GPT_ENTRY_NUMBERS)
    (restored : gpt_restore build desc str_disk_guid partitions = (0,desc')) :
    (∃ h gpt_pte, is_gpt_valid build desc' GPT_PRIMARY_PARTITION_TABLE_LBA = .valid h gpt_pte) ∧
      (∃ h gpt_pte, is_gpt_valid build desc' (desc.lba-1) = .valid h gpt_pte) ∧
      (∀ i p, partitions[i]? = some p → ∃ start size uuid type_guid,
        (laid_out (desc.lba-34) (partition_entries_offset build+32) partitions)[i]? = some (start,size) ∧
        uuid_str_to_bin build.uuid_guid_get_bin p.uuid = some uuid ∧ type_guid_of build p = some type_guid ∧
        (uuid_str_valid p.uuid → uuid_bin_to_str uuid = p.uuid.map tolower) ∧
        (uuid_str_valid p.type_guid → uuid_bin_to_str type_guid = p.type_guid.map tolower) ∧
        part_get_info_efi build desc' (i+1) =
          if type_guid = zero_guid then .error (-EPERM) else .ok (info_of p start size uuid type_guid)) ∧
      (∀ part, partitions.length < part → part_get_info_efi build desc' part = .error (-EPERM)) ∧
      gpt_verify_partitions build desc' partitions = 0 := by
  obtain ⟨primary,backup,table,here⟩ := gpt_restore_tabled (by omega) number restored
  refine ⟨⟨_,_,tabled_valid here.first⟩,⟨_,_,tabled_valid here.second⟩,?_,fun part => others_unused here,
    partitions_verified here number⟩
  intro i p at_p
  obtain ⟨start,size,uuid,type_guid,at_laid,uuid_is,type_is,read⟩ := info_of_partition here at_p
  refine ⟨start,size,uuid,type_guid,at_laid,uuid_is,type_is,uuid_text uuid_is,?_,read⟩
  intro valid
  have given : p.type_guid ≠ [] := by
    intro empty
    rw [empty] at valid
    revert valid
    decide
  rw [type_guid_of,if_pos given] at type_is
  exact uuid_text type_is valid
end

/-! ## A disk -/

/-- `crc32` of `lib/crc32.c`, bit by bit. -/
def crc32_byte (crc : UInt32) (byte : UInt8) : UInt32 :=
  (List.range 8).foldl (fun c _ => if c &&& 1 = 1 then c >>> 1 ^^^ 0xedb88320 else c >>> 1) (crc ^^^ byte.toUInt32)

def crc32 (buf : List UInt8) : UInt32 := buf.foldl crc32_byte 0xffffffff ^^^ 0xffffffff

def small_build : Build := ⟨crc32,fun _ => none,none⟩

def small_disk : BlkDesc := ⟨128,fun _ => 0,by decide⟩

def disk_text : List Char := "00112233-4455-6677-8899-aabbccddeeff".toList

/-- A partition with a name, a size and a type, and the rest left open. -/
def open_partition (letters : List UInt8) (size : ℕ) (type_guid : List Char) (size_lt : size < 2^64) (short : letters.length < PART_NAME_LEN) :
    DiskPartition where
  start := 0
  size
  name := letters ++ List.replicate (PART_NAME_LEN-letters.length) 0
  bootable := 1
  uuid := "C12A7328-F81F-11D2-BA4B-00A0C93EC93B".toList
  type_guid
  start_lt := by decide
  size_lt
  name_size := by
    rw [List.length_append,List.length_replicate]
    omega
  terminated := by
    refine List.mem_append_right _ (List.mem_replicate.mpr ⟨?_,rfl⟩)
    omega

def boot : DiskPartition := open_partition [0x62,0x6f,0x6f,0x74] 16 [] (by decide) (by decide)
def rootfs : DiskPartition := open_partition [0x72,0x6f,0x6f,0x74] 0 "0fc63daf-8483-4772-8e79-3d69d8477de4".toList (by decide) (by decide)
def tabbed : DiskPartition := open_partition [0x61,0x09,0x62] 16 [] (by decide) (by decide)
def untyped : DiskPartition := open_partition [0x61] 0 "00000000-0000-0000-0000-000000000000".toList (by decide) (by decide)

def small_header : GptHeader := (gpt_fill_header small_build small_disk disk_text).get (by decide +kernel)

theorem small_restored {partitions : List DiskPartition} (number : partitions.length ≤ GPT_ENTRY_NUMBERS)
    (fill : (fill_ptes small_build small_header small_header.first_usable_lba partitions).toOption.isSome) :
    ∃ desc' primary backup table, gpt_restore small_build small_disk disk_text partitions = (0,desc') ∧
      Restored small_build small_disk.lba partitions desc' primary backup table := by
  have header : gpt_fill_header small_build small_disk disk_text = some small_header := (some_get _).symm
  cases run : fill_ptes small_build small_header small_header.first_usable_lba partitions with
  | error ret =>
    rw [run] at fill
    cases fill
  | ok entries => exact gpt_restore_filled (by decide) number header run

theorem boot_rootfs_read_back :
    ∃ desc', gpt_restore small_build small_disk disk_text [boot,rootfs] = (0,desc') ∧
      (∃ h gpt_pte, is_gpt_valid small_build desc' 1 = .valid h gpt_pte) ∧
      (∃ h gpt_pte, is_gpt_valid small_build desc' 127 = .valid h gpt_pte) ∧
      part_get_info_efi small_build desc' 3 = .error (-EPERM) ∧ gpt_verify_partitions small_build desc' [boot,rootfs] = 0 := by
  obtain ⟨desc',_,_,_,restored,_⟩ := @small_restored [boot,rootfs] (by decide) (by decide +kernel)
  obtain ⟨first,last,_,unused,verified⟩ := gpt_read_back (by decide) (by decide) restored
  exact ⟨desc',restored,first,last,unused 3 (by decide),verified⟩

/-- A tab in a name is read as a dot, and a partition with a zero type is read as unused. -/
theorem tab_read_as_dot :
    ∃ desc', gpt_restore small_build small_disk disk_text [tabbed,untyped] = (0,desc') ∧
      (∃ info, part_get_info_efi small_build desc' 1 = .ok info ∧ info.name ≠ c_string tabbed.name) ∧
      part_get_info_efi small_build desc' 2 = .error (-EPERM) := by
  obtain ⟨desc',_,_,_,restored,here⟩ := @small_restored [tabbed,untyped] (by decide) (by decide +kernel)
  refine ⟨desc',restored,?_,?_⟩
  · obtain ⟨start,size,uuid,type_guid,_,_,type_is,read⟩ := @info_of_partition small_build desc' tabbed _ _ _ _ _ here 0 rfl
    have basic : type_guid_of small_build tabbed = some partition_basic_data_guid := rfl
    obtain rfl := Option.some.inj (basic.symm.trans type_is)
    rw [if_neg (by decide)] at read
    have shown : printed tabbed.name ≠ c_string tabbed.name := by decide
    exact ⟨_,read,shown⟩
  · obtain ⟨start,size,uuid,type_guid,_,_,type_is,read⟩ := @info_of_partition small_build desc' untyped _ _ _ _ _ here 1 rfl
    have zero : type_guid_of small_build untyped = some zero_guid := by decide +kernel
    obtain rfl := Option.some.inj (zero.symm.trans type_is)
    exact read
end UBoot.PartEfi
