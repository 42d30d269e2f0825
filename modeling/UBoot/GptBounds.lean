import UBoot.PartEfi

/-!
Reading a GUID partition table from a disk that nobody vouches for, `disk/part_efi.c`. Blocks have
any size from 512 bytes on, the device and `memalign` may fail, and a `size_t` has 32 bits or more.
A read behind the block of the header, behind the entries that were read or behind their allocation
is a fault that ends the run. The size of the header is not compared with the block, and entries are
taken at a fixed stride whatever the size in the header is.
-/
namespace UBoot.GptBounds
open UBoot.Memory UBoot.Buffers UBoot.Uuid
open UBoot.PartEfi (GptHeader GptEntry header_at entry_at guid_at zero_guid gpt_entry_size EPERM EINVAL
  GPT_HEADER_SIGNATURE_UBOOT GPT_HEADER_CHROMEOS_IGNORE GPT_PRIMARY_PARTITION_TABLE_LBA)

structure BlkDesc where
  lba : ℕ
  blksz : ℕ
  bytes : ℕ → UInt8
  lba_lt : lba < 2^64
  blksz_min : 512 ≤ blksz

/-- The checksum, the number of values of a `size_t`, and which allocations and which
    transfers of a number of blocks succeed. -/
structure Machine where
  crc32 : List UInt8 → UInt32
  size_t : ℕ
  memalign : ℕ → Bool
  reads : ℕ → ℕ → Bool
  writes : ℕ → ℕ → Bool
  word : 2^32 ≤ size_t

inductive Fault where
  | header
  | table
  | entry
deriving DecidableEq

structure Block where
  bytes : ℕ → UInt8
  size : ℕ

def Readable (m : Machine) (desc : BlkDesc) (start blkcnt : ℕ) : Prop :=
  start+blkcnt ≤ desc.lba ∧ m.reads start blkcnt = true

instance (m : Machine) (desc : BlkDesc) (start blkcnt : ℕ) : Decidable (Readable m desc start blkcnt) :=
  inferInstanceAs (Decidable (_ ∧ _))

def blk_dread (m : Machine) (desc : BlkDesc) (start blkcnt : ℕ) : Option (ℕ → UInt8) :=
  if Readable m desc start blkcnt then some fun i => desc.bytes (start*desc.blksz+i) else none

def BLOCK_CNT (m : Machine) (desc : BlkDesc) (size : ℕ) : ℕ := (size+m.size_t-1)%m.size_t/desc.blksz+1

def PAD_TO_BLOCKSIZE (m : Machine) (desc : BlkDesc) (size : ℕ) : ℕ := BLOCK_CNT m desc size*desc.blksz%m.size_t

/-- The checksum of a header in a block with its own field cleared. -/
def header_crc32 (m : Machine) (block : ℕ → UInt8) : ℕ :=
  (m.crc32 (load (store block 16 [0,0,0,0]) 0 (header_at block).header_size)).toNat

def HeaderChecked (m : Machine) (block : ℕ → UInt8) (lba lastlba : ℕ) : Prop :=
  let h := header_at block
  header_crc32 m block = h.header_crc32 ∧ h.my_lba = lba ∧ h.first_usable_lba ≤ lastlba ∧ h.last_usable_lba ≤ lastlba

instance (m : Machine) (block : ℕ → UInt8) (lba lastlba : ℕ) : Decidable (HeaderChecked m block lba lastlba) :=
  inferInstanceAs (Decidable (_ ∧ _))

/-- `validate_gpt_header` for a block, which returns 0 or -1. -/
def validate_gpt_header (m : Machine) (desc : BlkDesc) (block : ℕ → UInt8) (lba lastlba : ℕ) : Except Fault Bool :=
  let h := header_at block
  if h.signature ≠ GPT_HEADER_SIGNATURE_UBOOT then .ok false
  else if desc.blksz < h.header_size then .error .header
  else .ok (decide (HeaderChecked m block lba lastlba))

/-- The product that is the size of the entries, in 32 bits. -/
def table_size (h : GptHeader) : ℕ := h.num_partition_entries*h.sizeof_partition_entry%2^32

def validate_gpt_entries (m : Machine) (h : GptHeader) (gpt_e : Block) : Except Fault Bool :=
  if gpt_e.size < table_size h then .error .table
  else .ok (decide ((m.crc32 (load gpt_e.bytes 0 (table_size h))).toNat = h.partition_entry_array_crc32))

def alloc_read_gpt_entries (m : Machine) (desc : BlkDesc) (h : GptHeader) : Except Fault (Option Block) :=
  let count := table_size h
  if count = 0 then .ok none
  else
    let size := PAD_TO_BLOCKSIZE m desc count
    if m.memalign size = false then .ok none
    else
      let blk_cnt := BLOCK_CNT m desc count
      match blk_dread m desc h.partition_entry_lba blk_cnt with
      | none => .ok none
      | some pte => if size < blk_cnt*desc.blksz then .error .table else .ok (some ⟨pte,size⟩)

/-- What `is_gpt_valid` returns: 1 with the block of the header and the entries, 0 or 2. -/
inductive GptValid where
  | valid (gpt_head : ℕ → UInt8) (gpt_pte : Block)
  | invalid
  | ignored (gpt_head : ℕ → UInt8)

def is_gpt_valid (m : Machine) (desc : BlkDesc) (lba : ℕ) : Except Fault GptValid :=
  match blk_dread m desc 0 1, blk_dread m desc lba 1 with
  | some _, some gpt_head => do
    let h := header_at gpt_head
    if h.signature = GPT_HEADER_CHROMEOS_IGNORE then .ok (.ignored gpt_head)
    else if ← validate_gpt_header m desc gpt_head lba desc.lba then
      match ← alloc_read_gpt_entries m desc h with
      | none => .ok .invalid
      | some gpt_pte => .ok (if ← validate_gpt_entries m h gpt_pte then .valid gpt_head gpt_pte else .invalid)
    else .ok .invalid
  | _, _ => .ok .invalid

/-- `desc->lba - 1` -/
def last_lba (desc : BlkDesc) : ℕ := (desc.lba+2^64-1)%2^64

def find_valid_gpt (m : Machine) (desc : BlkDesc) : Except Fault (Option ((ℕ → UInt8) × Block)) := do
  match ← is_gpt_valid m desc GPT_PRIMARY_PARTITION_TABLE_LBA with
  | .valid gpt_head gpt_pte => .ok (some (gpt_head,gpt_pte))
  | _ =>
    match ← is_gpt_valid m desc (last_lba desc) with
    | .valid gpt_head gpt_pte => .ok (some (gpt_head,gpt_pte))
    | _ => .ok none

/-- `part_get_gpt_pte`, with `is_pte_valid`, which reads the type only. -/
def part_get_gpt_pte (m : Machine) (desc : BlkDesc) (part : ℤ) : Except Fault (Except ℤ GptEntry) :=
  if part < 1 then .ok (.error (-EINVAL))
  else do
    match ← find_valid_gpt m desc with
    | none => .ok (.error (-EINVAL))
    | some (gpt_head,gpt_pte) =>
      let offset := gpt_entry_size*(part.toNat-1)
      if (header_at gpt_head).num_partition_entries < part.toNat then .ok (.error (-EPERM))
      else if gpt_pte.size < offset+16 then .error .entry
      else if guid_at gpt_pte.bytes offset = zero_guid then .ok (.error (-EPERM))
      else if gpt_pte.size < offset+gpt_entry_size then .error .entry
      else .ok (.ok (entry_at gpt_pte.bytes offset))

/-! ## Inside -/

section
variable {m : Machine} {desc : BlkDesc} {lba : ℕ}

def blocks_at (desc : BlkDesc) (start : ℕ) : ℕ → UInt8 := fun i => desc.bytes (start*desc.blksz+i)

def HeaderRead (m : Machine) (desc : BlkDesc) (lba : ℕ) : Prop :=
  Readable m desc 0 1 ∧ Readable m desc lba 1 ∧
    (header_at (blocks_at desc lba)).signature = GPT_HEADER_SIGNATURE_UBOOT

/-- The entries of the header in a block are there and are read. -/
def TableRead (m : Machine) (desc : BlkDesc) (lba : ℕ) : Prop :=
  let h := header_at (blocks_at desc lba)
  table_size h ≠ 0 ∧ m.memalign (PAD_TO_BLOCKSIZE m desc (table_size h)) = true ∧
    Readable m desc h.partition_entry_lba (BLOCK_CNT m desc (table_size h))

structure Accepted (m : Machine) (desc : BlkDesc) (lba : ℕ) : Prop where
  header : HeaderRead m desc lba
  checked : HeaderChecked m (blocks_at desc lba) lba desc.lba
  table : TableRead m desc lba
  sum : (m.crc32 (load (blocks_at desc (header_at (blocks_at desc lba)).partition_entry_lba) 0
    (table_size (header_at (blocks_at desc lba))))).toNat = (header_at (blocks_at desc lba)).partition_entry_array_crc32

def HeaderInside (m : Machine) (desc : BlkDesc) (lba : ℕ) : Prop :=
  HeaderRead m desc lba → (header_at (blocks_at desc lba)).header_size ≤ desc.blksz

/-- The size of a table that is read fits into a `size_t`. -/
def TableInside (m : Machine) (desc : BlkDesc) (lba : ℕ) : Prop :=
  HeaderRead m desc lba → HeaderChecked m (blocks_at desc lba) lba desc.lba → TableRead m desc lba →
    BLOCK_CNT m desc (table_size (header_at (blocks_at desc lba)))*desc.blksz < m.size_t
/-- The blocks that hold the entries have at least as many bytes. -/
theorem table_covered {count : ℕ} (some_bytes : count ≠ 0) (small : count < 2^32) :
    count ≤ BLOCK_CNT m desc count*desc.blksz := by
  have word := m.word
  have blksz := desc.blksz_min
  have rest : (count+m.size_t-1)%m.size_t = count-1 := by
    rw [show count+m.size_t-1 = count-1+m.size_t by omega,Nat.add_mod_right,Nat.mod_eq_of_lt (by omega)]
  have division := Nat.div_add_mod (count-1) desc.blksz
  have remainder := Nat.mod_lt (count-1) (by omega : desc.blksz > 0)
  rw [BLOCK_CNT,rest,Nat.succ_mul,mul_comm]
  omega

/-- The size of the entries that are read, without wrapping. -/
def room_for (m : Machine) (desc : BlkDesc) (lba : ℕ) : ℕ :=
  BLOCK_CNT m desc (table_size (header_at (blocks_at desc lba)))*desc.blksz

/-- How `is_gpt_valid` can come out, with everything that was found on the way. -/
inductive Outcome (m : Machine) (desc : BlkDesc) (lba : ℕ) : Except Fault GptValid → Prop
  | unread (unread : ¬ (Readable m desc 0 1 ∧ Readable m desc lba 1)) : Outcome m desc lba (.ok .invalid)
  | ignored (read : Readable m desc 0 1 ∧ Readable m desc lba 1)
      (signature : (header_at (blocks_at desc lba)).signature = GPT_HEADER_CHROMEOS_IGNORE) :
      Outcome m desc lba (.ok (.ignored (blocks_at desc lba)))
  | foreign (signature : (header_at (blocks_at desc lba)).signature ≠ GPT_HEADER_SIGNATURE_UBOOT)
      (unknown : (header_at (blocks_at desc lba)).signature ≠ GPT_HEADER_CHROMEOS_IGNORE) : Outcome m desc lba (.ok .invalid)
  | long (read : HeaderRead m desc lba) (long : desc.blksz < (header_at (blocks_at desc lba)).header_size) :
      Outcome m desc lba (.error .header)
  | unchecked (read : HeaderRead m desc lba) (inside : (header_at (blocks_at desc lba)).header_size ≤ desc.blksz)
      (unchecked : ¬ HeaderChecked m (blocks_at desc lba) lba desc.lba) : Outcome m desc lba (.ok .invalid)
  | tableless (read : HeaderRead m desc lba) (inside : (header_at (blocks_at desc lba)).header_size ≤ desc.blksz)
      (tableless : ¬ TableRead m desc lba) : Outcome m desc lba (.ok .invalid)
  | wraps (read : HeaderRead m desc lba) (checked : HeaderChecked m (blocks_at desc lba) lba desc.lba)
      (table : TableRead m desc lba) (wraps : m.size_t ≤ room_for m desc lba) : Outcome m desc lba (.error .table)
  | false_sum (read : HeaderRead m desc lba) (inside : (header_at (blocks_at desc lba)).header_size ≤ desc.blksz)
      (room : room_for m desc lba < m.size_t) (rejected : ¬ Accepted m desc lba) : Outcome m desc lba (.ok .invalid)
  | accepted (inside : (header_at (blocks_at desc lba)).header_size ≤ desc.blksz) (room : room_for m desc lba < m.size_t)
      (accepted : Accepted m desc lba) :
      Outcome m desc lba (.ok (.valid (blocks_at desc lba)
        ⟨blocks_at desc (header_at (blocks_at desc lba)).partition_entry_lba,room_for m desc lba⟩))

theorem table_read (table : TableRead m desc lba) : alloc_read_gpt_entries m desc (header_at (blocks_at desc lba)) =
    if m.size_t ≤ room_for m desc lba then .error .table
    else .ok (some ⟨blocks_at desc (header_at (blocks_at desc lba)).partition_entry_lba,room_for m desc lba⟩) := by
  obtain ⟨some_bytes,given,readable⟩ := table
  rw [alloc_read_gpt_entries]
  dsimp only
  rw [if_neg some_bytes,given,if_neg (by simp),blk_dread,if_pos readable]
  dsimp only
  rw [PAD_TO_BLOCKSIZE,← room_for]
  by_cases wraps : m.size_t ≤ room_for m desc lba
  · have word := m.word
    have less := Nat.mod_lt (room_for m desc lba) (by omega : m.size_t > 0)
    rw [if_pos wraps,if_pos (by omega)]
  · rw [if_neg wraps,Nat.mod_eq_of_lt (by omega),if_neg (lt_irrefl _)]
    rfl

theorem table_unread (unread : ¬ TableRead m desc lba) :
    alloc_read_gpt_entries m desc (header_at (blocks_at desc lba)) = .ok none := by
  rw [alloc_read_gpt_entries]
  dsimp only
  by_cases empty : table_size (header_at (blocks_at desc lba)) = 0
  · rw [if_pos empty]
  rw [if_neg empty]
  by_cases refused : m.memalign (PAD_TO_BLOCKSIZE m desc (table_size (header_at (blocks_at desc lba)))) = false
  · rw [if_pos refused]
  rw [if_neg refused,blk_dread,if_neg]
  exact fun readable => unread ⟨empty,Bool.eq_true_of_not_eq_false refused,readable⟩

theorem is_gpt_valid_outcome (m : Machine) (desc : BlkDesc) (lba : ℕ) : Outcome m desc lba (is_gpt_valid m desc lba) := by
  set hdr := header_at (blocks_at desc lba)
  rw [is_gpt_valid]
  by_cases read : Readable m desc 0 1 ∧ Readable m desc lba 1
  swap
  · have invalid : (blk_dread m desc 0 1).isNone ∨ (blk_dread m desc lba 1).isNone := by
      rw [blk_dread,blk_dread]
      by_cases first : Readable m desc 0 1
      · rw [if_neg (fun second => read ⟨first,second⟩)]
        exact Or.inr rfl
      · rw [if_neg first]
        exact Or.inl rfl
    have unread := Outcome.unread read
    cases mbr : blk_dread m desc 0 1 with
    | none => exact unread
    | some _ =>
      cases head : blk_dread m desc lba 1 with
      | none => exact unread
      | some _ =>
        rw [mbr,head] at invalid
        simp at invalid
  rw [blk_dread,blk_dread,if_pos read.1,if_pos read.2]
  dsimp only
  rw [show (fun i => desc.bytes (lba*desc.blksz+i)) = blocks_at desc lba from rfl]
  by_cases ignore : hdr.signature = GPT_HEADER_CHROMEOS_IGNORE
  · rw [if_pos ignore]
    exact .ignored read ignore
  rw [if_neg ignore,validate_gpt_header]
  by_cases foreign : hdr.signature ≠ GPT_HEADER_SIGNATURE_UBOOT
  · rw [if_pos foreign]
    exact .foreign foreign ignore
  have header : HeaderRead m desc lba := ⟨read.1,read.2,not_not.mp foreign⟩
  rw [if_neg foreign]
  by_cases long : desc.blksz < hdr.header_size
  · rw [if_pos long]
    exact .long header long
  have inside := Nat.le_of_not_lt long
  rw [if_neg long]
  by_cases checked : HeaderChecked m (blocks_at desc lba) lba desc.lba
  swap
  · rw [decide_eq_false checked]
    exact .unchecked header inside checked
  rw [decide_eq_true checked]
  dsimp only [bind,Except.bind]
  rw [if_pos rfl]
  by_cases table : TableRead m desc lba
  swap
  · rw [table_unread table]
    exact .tableless header inside table
  rw [table_read table]
  by_cases wraps : m.size_t ≤ room_for m desc lba
  · rw [if_pos wraps]
    exact .wraps header checked table wraps
  rw [if_neg wraps]
  dsimp only
  have covered : ¬ room_for m desc lba < table_size hdr :=
    not_lt.mpr (table_covered table.1 (Nat.mod_lt _ (by norm_num)))
  rw [validate_gpt_entries,if_neg covered]
  dsimp only
  by_cases sum : (m.crc32 (load (blocks_at desc hdr.partition_entry_lba) 0
      (table_size hdr))).toNat = hdr.partition_entry_array_crc32
  · rw [decide_eq_true sum]
    exact .accepted inside (Nat.lt_of_not_le wraps) ⟨header,checked,table,sum⟩
  · rw [decide_eq_false sum]
    exact .false_sum header inside (Nat.lt_of_not_le wraps) fun accepted => sum accepted.sum
/-- A call stays inside of the header's block and of the entries. -/
theorem is_gpt_valid_returns_iff :
    (∃ valid, is_gpt_valid m desc lba = .ok valid) ↔ HeaderInside m desc lba ∧ TableInside m desc lba := by
  have outcome := is_gpt_valid_outcome m desc lba
  generalize is_gpt_valid m desc lba = result at outcome
  cases outcome with
  | unread unread => exact ⟨fun _ => ⟨fun read => absurd ⟨read.1,read.2.1⟩ unread,fun read => absurd ⟨read.1,read.2.1⟩ unread⟩,fun _ => ⟨_,rfl⟩⟩
  | ignored read signature =>
    have foreign : ¬ HeaderRead m desc lba := by
      rintro ⟨_,_,known⟩
      rw [known] at signature
      exact absurd signature (by decide)
    exact ⟨fun _ => ⟨fun read => absurd read foreign,fun read => absurd read foreign⟩,fun _ => ⟨_,rfl⟩⟩
  | foreign signature unknown =>
    exact ⟨fun _ => ⟨fun read => absurd read.2.2 signature,fun read => absurd read.2.2 signature⟩,fun _ => ⟨_,rfl⟩⟩
  | long read long =>
    refine ⟨fun ⟨_,returned⟩ => ?_,fun ⟨inside,_⟩ => absurd (inside read) (not_le.mpr long)⟩
    cases returned
  | unchecked read inside unchecked =>
    exact ⟨fun _ => ⟨fun _ => inside,fun _ checked => absurd checked unchecked⟩,fun _ => ⟨_,rfl⟩⟩
  | tableless read inside tableless =>
    exact ⟨fun _ => ⟨fun _ => inside,fun _ _ table => absurd table tableless⟩,fun _ => ⟨_,rfl⟩⟩
  | wraps read checked table wraps =>
    refine ⟨fun ⟨_,returned⟩ => ?_,fun ⟨_,inside⟩ => absurd (inside read checked table) (not_lt.mpr wraps)⟩
    cases returned
  | false_sum read inside room rejected => exact ⟨fun _ => ⟨fun _ => inside,fun _ _ _ => room⟩,fun _ => ⟨_,rfl⟩⟩
  | accepted inside room accepted => exact ⟨fun _ => ⟨fun _ => inside,fun _ _ _ => room⟩,fun _ => ⟨_,rfl⟩⟩

def table_at (m : Machine) (desc : BlkDesc) (lba : ℕ) : Block :=
  ⟨blocks_at desc (header_at (blocks_at desc lba)).partition_entry_lba,room_for m desc lba⟩

/-- What a returning call says is whether the table is accepted. -/
theorem is_gpt_valid_answers {valid : GptValid} (returned : is_gpt_valid m desc lba = .ok valid) :
    (Accepted m desc lba ∧ valid = .valid (blocks_at desc lba) (table_at m desc lba)) ∨
      (¬ Accepted m desc lba ∧ ∀ gpt_head gpt_pte, valid ≠ .valid gpt_head gpt_pte) := by
  have outcome := is_gpt_valid_outcome m desc lba
  rw [returned] at outcome
  cases outcome with
  | unread unread =>
    exact Or.inr ⟨fun accepted => unread ⟨accepted.header.1,accepted.header.2.1⟩,by simp⟩
  | ignored read signature =>
    refine Or.inr ⟨fun accepted => ?_,by simp⟩
    rw [accepted.header.2.2] at signature
    exact absurd signature (by decide)
  | foreign signature unknown => exact Or.inr ⟨fun accepted => signature accepted.header.2.2,by simp⟩
  | unchecked read inside unchecked => exact Or.inr ⟨fun accepted => unchecked accepted.checked,by simp⟩
  | tableless read inside tableless => exact Or.inr ⟨fun accepted => tableless accepted.table,by simp⟩
  | false_sum read inside room rejected => exact Or.inr ⟨rejected,by simp⟩
  | accepted inside room accepted => exact Or.inl ⟨accepted,rfl⟩

def Inside (m : Machine) (desc : BlkDesc) (lba : ℕ) : Prop := HeaderInside m desc lba ∧ TableInside m desc lba

def Found (m : Machine) (desc : BlkDesc) (lba : ℕ) : Prop :=
  (lba = GPT_PRIMARY_PARTITION_TABLE_LBA ∧ Accepted m desc GPT_PRIMARY_PARTITION_TABLE_LBA) ∨
    (lba = last_lba desc ∧ ¬ Accepted m desc GPT_PRIMARY_PARTITION_TABLE_LBA ∧ Accepted m desc (last_lba desc))

def BothInside (m : Machine) (desc : BlkDesc) : Prop :=
  Inside m desc GPT_PRIMARY_PARTITION_TABLE_LBA ∧
    (¬ Accepted m desc GPT_PRIMARY_PARTITION_TABLE_LBA → Inside m desc (last_lba desc))

def GptValid.found : GptValid → Option ((ℕ → UInt8) × Block)
  | .valid gpt_head gpt_pte => some (gpt_head,gpt_pte)
  | .invalid => none
  | .ignored _ => none

theorem found_none {valid : GptValid} (other : ∀ gpt_head gpt_pte, valid ≠ .valid gpt_head gpt_pte) : valid.found = none := by
  cases valid with
  | valid gpt_head gpt_pte => exact absurd rfl (other gpt_head gpt_pte)
  | invalid => rfl
  | ignored gpt_head => rfl

theorem find_first {valid : GptValid} (returned : is_gpt_valid m desc GPT_PRIMARY_PARTITION_TABLE_LBA = .ok valid)
    {found : (ℕ → UInt8) × Block} (here : valid.found = some found) : find_valid_gpt m desc = .ok (some found) := by
  rw [find_valid_gpt,returned]
  cases valid with
  | valid gpt_head gpt_pte =>
    cases here
    rfl
  | invalid => cases here
  | ignored gpt_head => cases here

theorem find_second {first : GptValid} (returned : is_gpt_valid m desc GPT_PRIMARY_PARTITION_TABLE_LBA = .ok first)
    (other : first.found = none) :
    find_valid_gpt m desc = (is_gpt_valid m desc (last_lba desc)).map GptValid.found := by
  rw [find_valid_gpt,returned]
  cases first with
  | valid gpt_head gpt_pte => cases other
  | invalid | ignored gpt_head =>
    cases is_gpt_valid m desc (last_lba desc) with
    | error fault => rfl
    | ok second => cases second <;> rfl

theorem find_valid_gpt_answers (inside : BothInside m desc) : ∃ found, find_valid_gpt m desc = .ok found ∧
    ((∃ lba, Found m desc lba ∧ found = some (blocks_at desc lba,table_at m desc lba)) ∨
      (found = none ∧ ∀ lba, ¬ Found m desc lba)) := by
  obtain ⟨primary,backup⟩ := inside
  obtain ⟨first,returned⟩ := is_gpt_valid_returns_iff.mpr primary
  rcases is_gpt_valid_answers returned with ⟨accepted,rfl⟩ | ⟨rejected,other⟩
  · exact ⟨_,find_first returned rfl,Or.inl ⟨_,Or.inl ⟨rfl,accepted⟩,rfl⟩⟩
  obtain ⟨second,returned'⟩ := is_gpt_valid_returns_iff.mpr (backup rejected)
  have searched := find_second returned (found_none other)
  rw [returned',Except.map] at searched
  refine ⟨_,searched,?_⟩
  rcases is_gpt_valid_answers returned' with ⟨accepted,rfl⟩ | ⟨rejected',other'⟩
  · exact Or.inl ⟨_,Or.inr ⟨rfl,rejected,accepted⟩,rfl⟩
  · refine Or.inr ⟨found_none other',fun lba found => ?_⟩
    rcases found with ⟨_,accepted⟩ | ⟨_,_,accepted⟩
    · exact rejected accepted
    · exact rejected' accepted

theorem find_valid_gpt_returns_iff : (∃ found, find_valid_gpt m desc = .ok found) ↔ BothInside m desc := by
  refine ⟨fun ⟨found,returned⟩ => ?_,fun inside => ?_⟩
  · cases first : is_gpt_valid m desc GPT_PRIMARY_PARTITION_TABLE_LBA with
    | error fault =>
      rw [find_valid_gpt,first] at returned
      cases returned
    | ok valid =>
      refine ⟨is_gpt_valid_returns_iff.mp ⟨valid,first⟩,fun rejected => ?_⟩
      obtain ⟨accepted,_⟩ | ⟨_,other⟩ := is_gpt_valid_answers first
      · exact absurd accepted rejected
      rw [find_second first (found_none other)] at returned
      cases second : is_gpt_valid m desc (last_lba desc) with
      | error fault =>
        rw [second] at returned
        cases returned
      | ok valid' => exact is_gpt_valid_returns_iff.mp ⟨valid',second⟩
  · obtain ⟨found,returned,_⟩ := find_valid_gpt_answers inside
    exact ⟨found,returned⟩

/-- The entry of a part is inside the entries that are read, up to where it is read. -/
def PartInside (m : Machine) (desc : BlkDesc) (lba part : ℕ) : Prop :=
  let offset := gpt_entry_size*(part-1)
  let table := table_at m desc lba
  part ≤ (header_at (blocks_at desc lba)).num_partition_entries → offset+16 ≤ table.size ∧
    (guid_at table.bytes offset ≠ zero_guid → offset+gpt_entry_size ≤ table.size)

theorem part_of_found {part : ℤ} (some_part : ¬ part < 1) (found : find_valid_gpt m desc =
    .ok (some (blocks_at desc lba,table_at m desc lba))) :
    (∃ pte, part_get_gpt_pte m desc part = .ok pte) ↔ PartInside m desc lba part.toNat := by
  rw [part_get_gpt_pte,if_neg some_part,found]
  dsimp only [bind,Except.bind]
  rw [PartInside]
  by_cases beyond : (header_at (blocks_at desc lba)).num_partition_entries < part.toNat
  · rw [if_pos beyond]
    exact ⟨fun _ inside => absurd inside (not_le.mpr beyond),fun _ => ⟨_,rfl⟩⟩
  rw [if_neg beyond]
  have inside := Nat.le_of_not_lt beyond
  by_cases type_outside : (table_at m desc lba).size < gpt_entry_size*(part.toNat-1)+16
  · rw [if_pos type_outside]
    refine ⟨fun ⟨_,returned⟩ => ?_,fun bounds => absurd (bounds inside).1 (not_le.mpr type_outside)⟩
    cases returned
  rw [if_neg type_outside]
  by_cases unused : guid_at (table_at m desc lba).bytes (gpt_entry_size*(part.toNat-1)) = zero_guid
  · rw [if_pos unused]
    exact ⟨fun _ _ => ⟨Nat.le_of_not_lt type_outside,fun used => absurd unused used⟩,fun _ => ⟨_,rfl⟩⟩
  rw [if_neg unused]
  by_cases outside : (table_at m desc lba).size < gpt_entry_size*(part.toNat-1)+gpt_entry_size
  · rw [if_pos outside]
    refine ⟨fun ⟨_,returned⟩ => ?_,fun bounds => absurd ((bounds inside).2 unused) (not_le.mpr outside)⟩
    cases returned
  · rw [if_neg outside]
    exact ⟨fun _ _ => ⟨Nat.le_of_not_lt type_outside,fun _ => Nat.le_of_not_lt outside⟩,fun _ => ⟨_,rfl⟩⟩

theorem found_alone {other : ℕ} (here : Found m desc lba) (there : Found m desc other) : other = lba := by
  rcases here with ⟨place,accepted⟩ | ⟨place,rejected,_⟩
  · rcases there with ⟨place',_⟩ | ⟨_,rejected,_⟩
    · rw [place,place']
    · exact absurd accepted rejected
  · rcases there with ⟨_,accepted⟩ | ⟨place',_⟩
    · exact absurd accepted rejected
    · rw [place,place']

theorem part_get_gpt_pte_returns_iff (part : ℤ) : (∃ pte, part_get_gpt_pte m desc part = .ok pte) ↔
    (1 ≤ part → BothInside m desc ∧ ∀ lba, Found m desc lba → PartInside m desc lba part.toNat) := by
  by_cases none_such : part < 1
  · rw [part_get_gpt_pte,if_pos none_such]
    exact ⟨fun _ some_part => absurd none_such (not_lt.mpr some_part),fun _ => ⟨_,rfl⟩⟩
  by_cases inside : BothInside m desc
  · obtain ⟨found,returned,answer⟩ := find_valid_gpt_answers inside
    rcases answer with ⟨lba,here,rfl⟩ | ⟨rfl,nowhere⟩
    · rw [part_of_found none_such returned]
      refine ⟨fun bounds _ => ⟨inside,fun other found => ?_⟩,fun bounds => (bounds (not_lt.mp none_such)).2 lba here⟩
      rw [found_alone here found]
      exact bounds
    · rw [part_get_gpt_pte,if_neg none_such,returned]
      exact ⟨fun _ _ => ⟨inside,fun lba found => absurd found (nowhere lba)⟩,fun _ => ⟨_,rfl⟩⟩
  · refine ⟨fun ⟨pte,returned⟩ => ?_,fun bounds => absurd (bounds (not_lt.mp none_such)).1 inside⟩
    cases found : find_valid_gpt m desc with
    | error fault =>
      rw [part_get_gpt_pte,if_neg none_such,found] at returned
      cases returned
    | ok table => exact absurd (find_valid_gpt_returns_iff.mp ⟨table,found⟩) inside
end

/-- The calls stay inside of the block of the header, of the entries and of their
    allocation exactly when the headers and the parts that they read do. -/
theorem gpt_read_inside_iff (m : Machine) (desc : BlkDesc) :
    (∀ lba, (∃ valid, is_gpt_valid m desc lba = .ok valid) ↔ HeaderInside m desc lba ∧ TableInside m desc lba) ∧
      ((∃ found, find_valid_gpt m desc = .ok found) ↔ BothInside m desc) ∧
      ∀ part, (∃ pte, part_get_gpt_pte m desc part = .ok pte) ↔
        (1 ≤ part → BothInside m desc ∧ ∀ lba, Found m desc lba → PartInside m desc lba part.toNat) :=
  ⟨fun _ => is_gpt_valid_returns_iff,find_valid_gpt_returns_iff,part_get_gpt_pte_returns_iff⟩

/-- A machine of 64 bits on which everything succeeds. -/
def steady : Machine where
  crc32 := PartEfi.crc32
  size_t := 2^64
  memalign _ := true
  reads _ _ := true
  writes _ _ := true
  word := by norm_num

/-- A disk whose primary header says that it has so many bytes. -/
def headed (header_size : ℕ) : BlkDesc where
  lba := 128
  blksz := 512
  bytes := store (fun _ => 0) 512 (little 8 GPT_HEADER_SIGNATURE_UBOOT ++ (little 4 0x10000 ++ little 4 header_size))
  lba_lt := by norm_num
  blksz_min := le_rfl

/-- A header of 4 GiB is summed up to its end, far behind the block that was read. -/
theorem long_header_read : ¬ ∃ pte, part_get_gpt_pte steady (headed 0xffffffff) 1 = .ok pte := by
  rw [part_get_gpt_pte_returns_iff]
  intro bounds
  have read : HeaderRead steady (headed 0xffffffff) GPT_PRIMARY_PARTITION_TABLE_LBA := by
    refine ⟨by decide,by decide,?_⟩
    decide +kernel
  have size : (header_at (blocks_at (headed 0xffffffff) GPT_PRIMARY_PARTITION_TABLE_LBA)).header_size = 0xffffffff := by
    decide +kernel
  have inside := (bounds le_rfl).1.1.1 read
  rw [size] at inside
  exact absurd inside (by decide)

end UBoot.GptBounds
