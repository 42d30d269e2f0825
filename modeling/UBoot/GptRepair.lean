import UBoot.GptBounds

/-!
The repair of a GUID partition table from its other copy, `gpt_repair_headers` in
`disk/part_efi.c`. A run can end with a fault, and a write of blocks that fails leaves the device as
it was. What `is_gpt_valid` returns for a header that is to be ignored counts as valid (`Misled`),
and the copy is written where the other one says that its alternate is, so it becomes the missing
copy only if these are the right places (`Lands`).
-/
namespace UBoot.GptRepair
open UBoot.Memory UBoot.Buffers UBoot.Uuid UBoot.GptBounds List Option
open UBoot.PartEfi (GptHeader HeaderFits header_at header_bytes guid_at gpt_entry_size gpt_header_size
  GPT_HEADER_SIGNATURE_UBOOT GPT_HEADER_CHROMEOS_IGNORE GPT_PRIMARY_PARTITION_TABLE_LBA)

/-- `partition_entries_offset`, with the place in bytes that the build or the device tree
    gives, if one does. -/
def partition_entries_offset (m : Machine) (entries_offset : Option ℕ) (desc : BlkDesc) : ℕ :=
  let offset_blks := match entries_offset with
    | some offset_bytes => PAD_TO_BLOCKSIZE m desc offset_bytes%2^32/desc.blksz
    | none => 2
  if offset_blks < 2 then 2 else offset_blks

/-- What `prepare_backup_gpt_header` and `restore_primary_gpt_header` do to the block of a
    header, for the place of the entries. -/
def swapped (m : Machine) (desc : BlkDesc) (block : ℕ → UInt8) (partition_entry_lba : ℕ) : Except Fault (ℕ → UInt8) :=
  let h := header_at block
  let h := { h with my_lba := h.alternate_lba, alternate_lba := h.my_lba, partition_entry_lba, header_crc32 := 0 }
  if desc.blksz < h.header_size then .error .header
  else
    let calc_crc32 := (m.crc32 (load (store block 0 (header_bytes h)) 0 h.header_size)).toNat
    .ok (store block 0 (header_bytes { h with header_crc32 := calc_crc32 }))

def prepare_backup_gpt_header (m : Machine) (desc : BlkDesc) (block : ℕ → UInt8) : Except Fault (ℕ → UInt8) :=
  swapped m desc block (((header_at block).last_usable_lba+1)%2^64)

def restore_primary_gpt_header (m : Machine) (entries_offset : Option ℕ) (desc : BlkDesc) (block : ℕ → UInt8) :
    Except Fault (ℕ → UInt8) :=
  swapped m desc block (partition_entries_offset m entries_offset desc)

def int_blocks (n : ℕ) : ℕ := if n%2^32 < 2^31 then n%2^32 else n%2^32+2^64-2^32

def pte_blk_cnt (m : Machine) (desc : BlkDesc) (h : GptHeader) : ℕ :=
  int_blocks (BLOCK_CNT m desc (h.num_partition_entries*gpt_entry_size%m.size_t))

def Writable (m : Machine) (desc : BlkDesc) (start blkcnt : ℕ) : Prop :=
  start+blkcnt ≤ desc.lba ∧ m.writes start blkcnt = true

instance (m : Machine) (desc : BlkDesc) (start blkcnt : ℕ) : Decidable (Writable m desc start blkcnt) :=
  inferInstanceAs (Decidable (_ ∧ _))

abbrev Write := ℕ × List UInt8

abbrev Run := Except Fault ℤ × List Write

def write_one_gpt_table (m : Machine) (desc : BlkDesc) (gpt_h : ℕ → UInt8) (gpt_e : Block) : Run :=
  let h := header_at gpt_h
  let blkcnt := pte_blk_cnt m desc h
  let header := (h.my_lba,load gpt_h 0 desc.blksz)
  if ¬ Writable m desc h.my_lba 1 then (.ok (-1),[])
  else if ¬ Writable m desc h.partition_entry_lba blkcnt then (.ok (-1),[header])
  else if gpt_e.size < blkcnt*desc.blksz then (.error .table,[header])
  else (.ok 0,[header,(h.partition_entry_lba,load gpt_e.bytes 0 (blkcnt*desc.blksz))])

def null : Block := ⟨fun _ => 0,0⟩

/-- The header and the entries where `is_gpt_valid` does not return 0. -/
def nonzero : GptValid → Option ((ℕ → UInt8) × Block)
  | .valid gpt_head gpt_pte => some (gpt_head,gpt_pte)
  | .ignored gpt_head => some (gpt_head,null)
  | .invalid => none

def write_made (m : Machine) (desc : BlkDesc) (made : Except Fault (ℕ → UInt8)) (gpt_e : Block) : Run :=
  match made with
  | .error fault => (.error fault,[])
  | .ok gpt_h => write_one_gpt_table m desc gpt_h gpt_e

def gpt_repair_headers (m : Machine) (entries_offset : Option ℕ) (desc : BlkDesc) : Run :=
  match is_gpt_valid m desc GPT_PRIMARY_PARTITION_TABLE_LBA, is_gpt_valid m desc (last_lba desc) with
  | .error fault, _ => (.error fault,[])
  | .ok _, .error fault => (.error fault,[])
  | .ok is_gpt1_valid, .ok is_gpt2_valid =>
    match nonzero is_gpt1_valid, nonzero is_gpt2_valid with
    | some _, some _ => (.ok 0,[])
    | some (gpt_h1,gpt_e1), none => write_made m desc (prepare_backup_gpt_header m desc gpt_h1) gpt_e1
    | none, some (gpt_h2,gpt_e2) => write_made m desc (restore_primary_gpt_header m entries_offset desc gpt_h2) gpt_e2
    | none, none => (.ok (-1),[])

def written (desc : BlkDesc) (writes : List Write) : BlkDesc :=
  { desc with bytes := writes.foldl (fun bytes w => store bytes (w.1*desc.blksz) w.2) desc.bytes }

def Valid (m : Machine) (desc : BlkDesc) (lba : ℕ) (gpt_head : ℕ → UInt8) (gpt_pte : Block) : Prop :=
  is_gpt_valid m desc lba = .ok (.valid gpt_head gpt_pte)

/-- Two copies have the same disk GUID and the same entries. -/
structure SameTable (gpt_head : ℕ → UInt8) (gpt_pte : Block) (gpt_head' : ℕ → UInt8) (gpt_pte' : Block) : Prop where
  disk_guid : (header_at gpt_head').disk_guid = (header_at gpt_head).disk_guid
  number : (header_at gpt_head').num_partition_entries = (header_at gpt_head).num_partition_entries
  sizeof : (header_at gpt_head').sizeof_partition_entry = (header_at gpt_head).sizeof_partition_entry
  entries : load gpt_pte'.bytes 0 (table_size (header_at gpt_head)) = load gpt_pte.bytes 0 (table_size (header_at gpt_head))

def OnlyValid (m : Machine) (desc : BlkDesc) (lba other : ℕ) (gpt_head : ℕ → UInt8) (gpt_pte : Block) : Prop :=
  Valid m desc lba gpt_head gpt_pte ∧ ∀ gpt_head' gpt_pte', ¬ Valid m desc other gpt_head' gpt_pte'

/-- What a run is for: one valid copy becomes two with the same table, and nothing else
    is ever written. -/
structure Repairs (m : Machine) (entries_offset : Option ℕ) (desc : BlkDesc) : Prop where
  repaired : ∀ gpt_head gpt_pte,
    OnlyValid m desc GPT_PRIMARY_PARTITION_TABLE_LBA (last_lba desc) gpt_head gpt_pte ∨
      OnlyValid m desc (last_lba desc) GPT_PRIMARY_PARTITION_TABLE_LBA gpt_head gpt_pte →
    (gpt_repair_headers m entries_offset desc).1 = .ok 0 →
    ∀ lba ∈ [GPT_PRIMARY_PARTITION_TABLE_LBA,last_lba desc], ∃ gpt_head' gpt_pte',
      Valid m (written desc (gpt_repair_headers m entries_offset desc).2) lba gpt_head' gpt_pte' ∧
        SameTable gpt_head gpt_pte gpt_head' gpt_pte'
  untouched : (∃ gpt_head gpt_pte, Valid m desc GPT_PRIMARY_PARTITION_TABLE_LBA gpt_head gpt_pte) →
    (∃ gpt_head gpt_pte, Valid m desc (last_lba desc) gpt_head gpt_pte) → (gpt_repair_headers m entries_offset desc).2 = []
  source : (gpt_repair_headers m entries_offset desc).2 ≠ [] → ∃ gpt_head gpt_pte,
    OnlyValid m desc GPT_PRIMARY_PARTITION_TABLE_LBA (last_lba desc) gpt_head gpt_pte ∨
      OnlyValid m desc (last_lba desc) GPT_PRIMARY_PARTITION_TABLE_LBA gpt_head gpt_pte

/-! ## What a copy depends on -/

theorem header_at_congr {block block' : ℕ → UInt8} (same : ∀ i < gpt_header_size, block i = block' i) :
    header_at block = header_at block' := by
  have part : ∀ offset n, offset+n ≤ gpt_header_size → load block offset n = load block' offset n :=
    fun offset n inside => load_congr fun i less => same _ (by omega)
  simp only [header_at,field,guid_at]
  rw [part 0 8 (by decide),part 8 4 (by decide),part 12 4 (by decide),part 16 4 (by decide),part 20 4 (by decide),
    part 24 8 (by decide),part 32 8 (by decide),part 40 8 (by decide),part 48 8 (by decide),part 72 8 (by decide),
    part 80 4 (by decide),part 84 4 (by decide),part 88 4 (by decide)]
  simp only [part 56 16 (by decide)]

theorem store_congr {block block' : ℕ → UInt8} {i : ℕ} (same : block i = block' i) (offset : ℕ) (bytes : List UInt8) :
    store block offset bytes i = store block' offset bytes i := by
  rw [store,store,same]

theorem header_checked_congr {m : Machine} {block block' : ℕ → UInt8} {blksz : ℕ} (room : gpt_header_size ≤ blksz)
    (same : ∀ i < blksz, block i = block' i) (inside : (header_at block).header_size ≤ blksz) {lba lastlba : ℕ}
    (checked : HeaderChecked m block lba lastlba) : HeaderChecked m block' lba lastlba := by
  have read : header_at block' = header_at block := header_at_congr fun i less => (same i (by omega)).symm
  rw [HeaderChecked] at checked ⊢
  rw [read]
  refine ⟨?_,checked.2⟩
  rw [← checked.1,header_crc32,header_crc32,read]
  congr 2
  exact load_congr fun i less => store_congr (same _ (by omega)).symm _ _

section
variable {m : Machine} {desc : BlkDesc}

def table_blocks (m : Machine) (desc : BlkDesc) (lba : ℕ) : ℕ := BLOCK_CNT m desc (table_size (header_at (blocks_at desc lba)))

/-- Blocks that are apart from the header and the entries of a copy. -/
structure Untouched (m : Machine) (desc : BlkDesc) (lba start blkcnt : ℕ) : Prop where
  header : lba+1 ≤ start ∨ start+blkcnt ≤ lba
  table : (header_at (blocks_at desc lba)).partition_entry_lba+table_blocks m desc lba ≤ start ∨
    start+blkcnt ≤ (header_at (blocks_at desc lba)).partition_entry_lba

structure Copy (m : Machine) (desc : BlkDesc) (lba : ℕ) : Prop where
  accepted : Accepted m desc lba
  inside : (header_at (blocks_at desc lba)).header_size ≤ desc.blksz
  room : room_for m desc lba < m.size_t

/-- Two disks are the same in the header and the entries of a copy. -/
structure Agree (m : Machine) (desc desc' : BlkDesc) (lba : ℕ) : Prop where
  lba_same : desc'.lba = desc.lba
  blksz_same : desc'.blksz = desc.blksz
  header : ∀ i < desc.blksz, blocks_at desc' lba i = blocks_at desc lba i
  table : ∀ i < room_for m desc lba, blocks_at desc' (header_at (blocks_at desc lba)).partition_entry_lba i =
    blocks_at desc (header_at (blocks_at desc lba)).partition_entry_lba i

variable {desc' : BlkDesc} {lba : ℕ}

theorem agree_header (agree : Agree m desc desc' lba) : header_at (blocks_at desc' lba) = header_at (blocks_at desc lba) := by
  have blksz := desc.blksz_min
  exact header_at_congr fun i less => agree.header i (by rw [gpt_header_size] at less; omega)

theorem agree_room (agree : Agree m desc desc' lba) : room_for m desc' lba = room_for m desc lba := by
  rw [room_for,room_for,agree_header agree,BLOCK_CNT,BLOCK_CNT,agree.blksz_same]

theorem agree_symm (agree : Agree m desc desc' lba) : Agree m desc' desc lba := by
  refine ⟨agree.lba_same.symm,agree.blksz_same.symm,fun i less => ?_,fun i less => ?_⟩
  · exact (agree.header i (agree.blksz_same ▸ less)).symm
  · rw [agree_room agree] at less
    rw [agree_header agree]
    exact (agree.table i less).symm

theorem readable_same (agree : Agree m desc desc' lba) (start blkcnt : ℕ) :
    Readable m desc' start blkcnt ↔ Readable m desc start blkcnt := by
  rw [Readable,Readable,agree.lba_same]

theorem agree_copy (agree : Agree m desc desc' lba) (copy : Copy m desc lba) : Copy m desc' lba := by
  have header := agree_header agree
  have room := agree_room agree
  have blksz := desc.blksz_min
  obtain ⟨⟨read,checked,table,sum⟩,inside,fits⟩ := copy
  have covered := @table_covered m desc _ table.1 (Nat.mod_lt _ (by norm_num))
  refine ⟨⟨?_,?_,?_,?_⟩,?_,by rwa [room]⟩
  · rw [HeaderRead,readable_same agree,readable_same agree,header]
    exact read
  · rw [agree.lba_same]
    exact header_checked_congr (by rw [gpt_header_size]; omega) (fun i less => (agree.header i less).symm) inside checked
  · rw [TableRead] at table ⊢
    rw [header,readable_same agree]
    simp only [PAD_TO_BLOCKSIZE,BLOCK_CNT,agree.blksz_same] at table ⊢
    exact table
  · rw [header,← sum]
    congr 2
    refine load_congr fun i less => ?_
    rw [zero_add]
    exact agree.table i (by rw [room_for]; omega)
  · rw [header,agree.blksz_same]
    exact inside

theorem copy_valid (copy : Copy m desc lba) : Valid m desc lba (blocks_at desc lba) (table_at m desc lba) := by
  have inside : HeaderInside m desc lba ∧ TableInside m desc lba := ⟨fun _ => copy.inside,fun _ _ _ => copy.room⟩
  obtain ⟨valid,returned⟩ := is_gpt_valid_returns_iff.mpr inside
  rcases is_gpt_valid_answers returned with ⟨_,rfl⟩ | ⟨rejected,_⟩
  · exact returned
  · exact absurd copy.accepted rejected

theorem valid_copy {gpt_head : ℕ → UInt8} {gpt_pte : Block} (valid : Valid m desc lba gpt_head gpt_pte) :
    Copy m desc lba ∧ gpt_head = blocks_at desc lba ∧ gpt_pte = table_at m desc lba := by
  obtain ⟨inside,room⟩ := is_gpt_valid_returns_iff.mp ⟨_,valid⟩
  rcases is_gpt_valid_answers valid with ⟨accepted,same⟩ | ⟨_,other⟩
  · cases same
    exact ⟨⟨accepted,inside accepted.header,room accepted.header accepted.checked accepted.table⟩,rfl,rfl⟩
  · exact absurd rfl (other _ _)

theorem agree_trans {desc'' : BlkDesc} (first : Agree m desc desc' lba) (second : Agree m desc' desc'' lba) :
    Agree m desc desc'' lba := by
  refine ⟨second.lba_same.trans first.lba_same,second.blksz_same.trans first.blksz_same,fun i less => ?_,fun i less => ?_⟩
  · rw [second.header i (first.blksz_same ▸ less),first.header i less]
  · have there := second.table i (by rwa [agree_room first])
    rw [agree_header first] at there
    rw [there,first.table i less]

/-- Blocks that are written are apart from others. -/
theorem write_apart {a n start blkcnt : ℕ} {bytes : List UInt8} (size : bytes.length = blkcnt*desc.blksz)
    (apart : a+n ≤ start ∨ start+blkcnt ≤ a) {i : ℕ} (less : i < n*desc.blksz) :
    blocks_at (written desc [(start,bytes)]) a i = blocks_at desc a i := by
  rw [blocks_at,blocks_at,written]
  dsimp only [List.foldl]
  rcases apart with below | above
  · have places : (a+n)*desc.blksz ≤ start*desc.blksz := Nat.mul_le_mul_right _ below
    rw [add_mul] at places
    exact store_below _ _ (by omega)
  · have places : (start+blkcnt)*desc.blksz ≤ a*desc.blksz := Nat.mul_le_mul_right _ above
    rw [add_mul] at places
    exact store_above _ _ (by omega)

theorem write_there {start : ℕ} {buffer : ℕ → UInt8} {size i : ℕ} (less : i < size) :
    blocks_at (written desc [(start,load buffer 0 size)]) start i = buffer i := by
  rw [blocks_at,written]
  dsimp only [List.foldl]
  refine store_inside _ ?_
  rw [load,getElem?_map,getElem?_range less,map_some,zero_add]

theorem untouched_agree {start blkcnt : ℕ} {bytes : List UInt8} (size : bytes.length = blkcnt*desc.blksz)
    (untouched : Untouched m desc lba start blkcnt) : Agree m desc (written desc [(start,bytes)]) lba := by
  refine ⟨rfl,rfl,fun i less => ?_,fun i less => ?_⟩
  · exact write_apart size untouched.header (by rwa [one_mul])
  · exact write_apart size untouched.table less

theorem untouched_agreed {start blkcnt : ℕ} (agree : Agree m desc desc' lba) (untouched : Untouched m desc lba start blkcnt) :
    Untouched m desc' lba start blkcnt := by
  obtain ⟨header,table⟩ := untouched
  rw [table_blocks,← agree_header agree] at table
  refine ⟨header,?_⟩
  rw [table_blocks,BLOCK_CNT,agree.blksz_same]
  exact table

theorem both_untouched {place target n : ℕ} {block : ℕ → UInt8} {bytes : List UInt8} (size : bytes.length = n*desc.blksz)
    (first : Untouched m desc lba target 1) (second : Untouched m desc lba place n) :
    Agree m desc (written desc [(target,load block 0 desc.blksz),(place,bytes)]) lba := by
  have one := @untouched_agree m desc lba target 1 (load block 0 desc.blksz) (by rw [load_length,one_mul]) first
  have two := @untouched_agree m (written desc [(target,load block 0 desc.blksz)]) lba place n bytes size
    (untouched_agreed one second)
  exact agree_trans one two

/-! ## A header for the other place -/

theorem header_at_fits (block : ℕ → UInt8) : HeaderFits (header_at block) :=
  ⟨field_lt _ _ _,field_lt _ _ _,field_lt _ _ _,field_lt _ _ _,field_lt _ _ _,field_lt _ _ _,field_lt _ _ _,
    field_lt _ _ _,field_lt _ _ _,field_lt _ _ _,field_lt _ _ _,field_lt _ _ _,field_lt _ _ _⟩

theorem load_same {block block' : ℕ → UInt8} {n i : ℕ} (same : load block 0 n = load block' 0 n) (less : i < n) :
    block i = block' i := by
  have there := congrArg (fun l : List UInt8 => l[i]?) same
  simp only [load,getElem?_map,getElem?_range less,map_some,zero_add,Option.some.injEq] at there
  exact there

/-- The header with its places exchanged, for the place of the entries. -/
def exchanged (h : GptHeader) (partition_entry_lba header_crc32 : ℕ) : GptHeader :=
  { h with my_lba := h.alternate_lba, alternate_lba := h.my_lba, partition_entry_lba, header_crc32 }

theorem exchanged_fits {h : GptHeader} (fits : HeaderFits h) {place crc : ℕ} (word : place < 2^64) (small : crc < 2^32) :
    HeaderFits (exchanged h place crc) :=
  ⟨fits.signature,fits.revision,fits.header_size,small,fits.reserved1,fits.alternate_lba,fits.my_lba,
    fits.first_usable_lba,fits.last_usable_lba,word,fits.num_partition_entries,fits.sizeof_partition_entry,
    fits.partition_entry_array_crc32⟩

theorem checksum_cleared (block : ℕ → UInt8) (h : GptHeader) (place crc n : ℕ) :
    load (store (store block 0 (header_bytes (exchanged h place crc))) 16 [0,0,0,0]) 0 n =
      load (store block 0 (header_bytes (exchanged h place 0))) 0 n := by
  have length : ∀ h : GptHeader, (header_bytes h).length = gpt_header_size := PartEfi.header_bytes_length
  have there : load (store block 0 (header_bytes (exchanged h place 0))) 0 gpt_header_size =
      header_bytes (exchanged h place 0) := by
    rw [← length (exchanged h place 0)]
    exact load_store _ _ _
  have holds : Holds (store block 0 (header_bytes (exchanged h place crc))) 0 (header_bytes (exchanged h place crc)) :=
    load_store _ _ _
  have cleared := PartEfi.cleared_holds holds
  rw [show { exchanged h place crc with header_crc32 := 0 } = exchanged h place 0 from rfl,Holds,length] at cleared
  refine load_congr fun i _ => ?_
  rw [zero_add]
  by_cases front : i < gpt_header_size
  · exact load_same (cleared.trans there.symm) front
  · have behind : gpt_header_size ≤ i := Nat.le_of_not_lt front
    rw [store_above _ _ (by rw [gpt_header_size] at behind; simp only [length_cons,length_nil]; omega),
      store_above _ _ (by rwa [length,zero_add]),store_above _ _ (by rwa [length,zero_add])]

theorem swapped_spec {block : ℕ → UInt8} {place : ℕ} (inside : (header_at block).header_size ≤ desc.blksz) (word : place < 2^64) :
    ∃ block', swapped m desc block place = .ok block' ∧
      header_at block' = exchanged (header_at block) place (header_crc32 m block') := by
  set turned := exchanged (header_at block) place
  have fits := header_at_fits block
  rw [swapped]
  dsimp only
  rw [if_neg (not_lt.mpr inside)]
  obtain ⟨crc,crcIs,small⟩ : ∃ crc, (m.crc32 (load (store block 0 (header_bytes (turned 0))) 0
      (header_at block).header_size)).toNat = crc ∧ crc < 2^32 := ⟨_,rfl,UInt32.toNat_lt _⟩
  have fits' := @exchanged_fits (header_at block) fits place crc word small
  have holds : Holds (store block 0 (header_bytes (turned crc))) 0
      (header_bytes (turned crc)) := load_store _ _ _
  have read := PartEfi.header_at_holds holds fits'
  have sum : header_crc32 m (store block 0 (header_bytes (turned crc))) = crc := by
    rw [header_crc32,read,checksum_cleared]
    exact crcIs
  refine ⟨store block 0 (header_bytes (turned crc)),?_,?_⟩
  · rw [← crcIs]
    rfl
  · rw [sum]
    exact read
end

/-! ## The copy that is made -/

section
variable {m : Machine} {desc : BlkDesc} {src target place : ℕ}

/-- The number of blocks of entries that are written for a copy. -/
def written_blocks (m : Machine) (desc : BlkDesc) (src : ℕ) : ℕ := pte_blk_cnt m desc (header_at (blocks_at desc src))

/-- The copy that is made from one stands at the other place, its entries are all
    written, both can be read, and nothing of one copy is on another. -/
structure Lands (m : Machine) (desc : BlkDesc) (src target place : ℕ) : Prop where
  alternate : (header_at (blocks_at desc src)).alternate_lba = target
  covers : table_blocks m desc src ≤ written_blocks m desc src
  header_read : Readable m desc target 1
  table_read : Readable m desc place (table_blocks m desc src)
  apart : target+1 ≤ place ∨ place+written_blocks m desc src ≤ target
  header_kept : Untouched m desc src target 1
  table_kept : Untouched m desc src place (written_blocks m desc src)

def made (m : Machine) (desc : BlkDesc) (src place : ℕ) (block : ℕ → UInt8) : List Write :=
  [((header_at (blocks_at desc src)).alternate_lba,load block 0 desc.blksz),
    (place,load (table_at m desc src).bytes 0 (written_blocks m desc src*desc.blksz))]

theorem same_table_agree {desc' : BlkDesc} (copy : Copy m desc src) (agree : Agree m desc desc' src) :
    SameTable (blocks_at desc src) (table_at m desc src) (blocks_at desc' src) (table_at m desc' src) := by
  have header := agree_header agree
  have covered := @table_covered m desc _ copy.accepted.table.1 (Nat.mod_lt _ (by norm_num))
  refine ⟨by rw [header],by rw [header],by rw [header],?_⟩
  dsimp only [table_at]
  rw [header]
  refine load_congr fun i less => ?_
  rw [zero_add]
  exact agree.table i (by rw [room_for]; omega)

/-- A copy that lands is valid and is the same table. -/
theorem landed (copy : Copy m desc src) (lands : Lands m desc src target place) {block : ℕ → UInt8}
    (header : header_at block = exchanged (header_at (blocks_at desc src)) place (header_crc32 m block)) :
    Copy m (written desc (made m desc src place block)) target ∧
      SameTable (blocks_at desc src) (table_at m desc src) (blocks_at (written desc (made m desc src place block)) target)
        (table_at m (written desc (made m desc src place block)) target) := by
  have blksz := desc.blksz_min
  have covered := @table_covered m desc _ copy.accepted.table.1 (Nat.mod_lt _ (by norm_num))
  have enough : table_size (header_at (blocks_at desc src)) ≤ written_blocks m desc src*desc.blksz :=
    covered.trans (Nat.mul_le_mul_right _ lands.covers)
  have one_by_one : written desc (made m desc src place block) = written (written desc [(target,load block 0 desc.blksz)])
      [(place,load (table_at m desc src).bytes 0 (written_blocks m desc src*desc.blksz))] := by
    rw [made,lands.alternate]
    rfl
  have first : ∀ i < desc.blksz, blocks_at (written desc (made m desc src place block)) target i = block i := by
    intro i less
    have kept := @write_apart (written desc [(target,load block 0 desc.blksz)]) target 1 place (written_blocks m desc src)
      (load (table_at m desc src).bytes 0 (written_blocks m desc src*desc.blksz)) (load_length _ _ _) lands.apart i
      (by rwa [one_mul])
    rw [one_by_one]
    exact kept.trans (write_there less)
  have second : ∀ i < written_blocks m desc src*desc.blksz,
      blocks_at (written desc (made m desc src place block)) place i = (table_at m desc src).bytes i := by
    intro i less
    rw [one_by_one]
    exact write_there less
  have same : header_at (blocks_at (written desc (made m desc src place block)) target) = header_at block :=
    header_at_congr fun i less => first i (by rw [gpt_header_size] at less; omega)
  have entries : load (blocks_at (written desc (made m desc src place block)) place) 0
      (table_size (header_at (blocks_at desc src))) =
      load (table_at m desc src).bytes 0 (table_size (header_at (blocks_at desc src))) := by
    refine load_congr fun i less => ?_
    rw [zero_add]
    exact second i (by omega)
  obtain ⟨⟨⟨mbr,_,signature⟩,⟨_,_,first_usable,last_usable⟩,⟨some_bytes,given,_⟩,sum⟩,inside,room⟩ := copy
  have checked : HeaderChecked m block target desc.lba := by
    rw [HeaderChecked,header]
    exact ⟨rfl,lands.alternate,first_usable,last_usable⟩
  have inside' : (header_at block).header_size ≤ desc.blksz := by
    rw [header]
    exact inside
  refine ⟨⟨⟨⟨mbr,lands.header_read,?_⟩,?_,?_,?_⟩,?_,?_⟩,?_⟩
  · rw [same,header]
    exact signature
  · exact header_checked_congr (by rw [gpt_header_size]; omega) (fun i less => (first i less).symm) inside' checked
  · rw [TableRead,same,header]
    exact ⟨some_bytes,given,lands.table_read⟩
  · rw [same,header]
    exact (congrArg (fun l => (m.crc32 l).toNat) entries).trans sum
  · rw [same]
    exact inside'
  · rw [room_for,same,header]
    exact room
  · refine ⟨?_,?_,?_,?_⟩
    · rw [same,header]
      rfl
    · rw [same,header]
      rfl
    · rw [same,header]
      rfl
    · rw [table_at,same,header]
      exact entries

theorem source_kept (lands : Lands m desc src target place) (block : ℕ → UInt8) :
    Agree m desc (written desc (made m desc src place block)) src := by
  rw [made,lands.alternate]
  exact both_untouched (load_length _ _ _) lands.header_kept lands.table_kept
end

/-! ## Runs -/

section
variable {m : Machine} {entries_offset : Option ℕ} {desc : BlkDesc} {lba src target place : ℕ}

def Ignored (m : Machine) (desc : BlkDesc) (lba : ℕ) : Prop :=
  Readable m desc 0 1 ∧ Readable m desc lba 1 ∧ (header_at (blocks_at desc lba)).signature = GPT_HEADER_CHROMEOS_IGNORE

/-- What `is_gpt_valid` returns where it stays inside. -/
inductive Sorted (m : Machine) (desc : BlkDesc) (lba : ℕ) : GptValid → Prop
  | copy (copy : Copy m desc lba) : Sorted m desc lba (.valid (blocks_at desc lba) (table_at m desc lba))
  | ignored (ignored : Ignored m desc lba) (other : ¬ Copy m desc lba) : Sorted m desc lba (.ignored (blocks_at desc lba))
  | invalid (other : ¬ Copy m desc lba) (read : ¬ Ignored m desc lba) : Sorted m desc lba .invalid

theorem read_not_ignored (read : HeaderRead m desc lba) : ¬ Ignored m desc lba := by
  rintro ⟨_,_,signature⟩
  rw [read.2.2] at signature
  exact absurd signature (by decide)

theorem returned_sorted (inside : Inside m desc lba) : ∃ valid, is_gpt_valid m desc lba = .ok valid ∧ Sorted m desc lba valid := by
  obtain ⟨valid,returned⟩ := is_gpt_valid_returns_iff.mpr inside
  refine ⟨valid,returned,?_⟩
  rcases is_gpt_valid_answers returned with ⟨accepted,rfl⟩ | ⟨rejected,_⟩
  · exact .copy ⟨accepted,inside.1 accepted.header,inside.2 accepted.header accepted.checked accepted.table⟩
  have other : ¬ Copy m desc lba := fun copy => rejected copy.accepted
  have outcome := is_gpt_valid_outcome m desc lba
  rw [returned] at outcome
  cases outcome with
  | unread unread => exact .invalid other fun ignored => unread ⟨ignored.1,ignored.2.1⟩
  | ignored read signature => exact .ignored ⟨read.1,read.2,signature⟩ other
  | foreign signature unknown => exact .invalid other fun ignored => unknown ignored.2.2
  | unchecked read inside unchecked | tableless read inside tableless => exact .invalid other (read_not_ignored read)
  | false_sum read inside room rejected => exact .invalid other (read_not_ignored read)
  | accepted inside room accepted => exact absurd accepted rejected
/-- A copy, the other copy, and where the entries of the other one go. -/
def Turn (m : Machine) (entries_offset : Option ℕ) (desc : BlkDesc) (src other place : ℕ) : Prop :=
  (src = GPT_PRIMARY_PARTITION_TABLE_LBA ∧ other = last_lba desc ∧
    place = ((header_at (blocks_at desc GPT_PRIMARY_PARTITION_TABLE_LBA)).last_usable_lba+1)%2^64) ∨
  (src = last_lba desc ∧ other = GPT_PRIMARY_PARTITION_TABLE_LBA ∧ place = partition_entries_offset m entries_offset desc)

/-- What `gpt_repair_headers` takes for a copy, if it is not invalid. -/
inductive Taken (m : Machine) (desc : BlkDesc) (lba : ℕ) : Option ((ℕ → UInt8) × Block) → Prop
  | copy (copy : Copy m desc lba) : Taken m desc lba (some (blocks_at desc lba,table_at m desc lba))
  | ignored (ignored : Ignored m desc lba) : Taken m desc lba (some (blocks_at desc lba,null))
  | invalid (invalid : ¬ Copy m desc lba) (read : ¬ Ignored m desc lba) : Taken m desc lba none

theorem sorted_taken {valid : GptValid} (sorted : Sorted m desc lba valid) : Taken m desc lba (nonzero valid) := by
  cases sorted with
  | copy copy => exact .copy copy
  | ignored ignored other => exact .ignored ignored
  | invalid other read => exact .invalid other read

theorem repair_run (turn : Turn m entries_offset desc src target place)
    (inside : Inside m desc GPT_PRIMARY_PARTITION_TABLE_LBA ∧ Inside m desc (last_lba desc)) :
    ∃ one two, Taken m desc src one ∧ Taken m desc target two ∧
      (∀ a b, one = some a → two = some b → gpt_repair_headers m entries_offset desc = (.ok 0,[])) ∧
      (∀ gpt_e, one = some (blocks_at desc src,gpt_e) → two = none → gpt_repair_headers m entries_offset desc =
        write_made m desc (swapped m desc (blocks_at desc src) place) gpt_e) ∧
      (one = none → two = none → gpt_repair_headers m entries_offset desc = (.ok (-1),[])) := by
  obtain ⟨first,returned,sorted⟩ := returned_sorted inside.1
  obtain ⟨second,returned',sorted'⟩ := returned_sorted inside.2
  have taken := sorted_taken sorted
  have taken' := sorted_taken sorted'
  rw [gpt_repair_headers,returned,returned']
  dsimp only
  rcases turn with ⟨here,there,goes⟩ | ⟨here,there,goes⟩
  · rw [here,there,goes]
    refine ⟨_,_,taken,taken',fun a b one two => ?_,fun gpt_e one two => ?_,fun one two => ?_⟩ <;> rw [one,two]
    rfl
  · rw [here,there,goes]
    refine ⟨_,_,taken',taken,fun a b one two => ?_,fun gpt_e one two => ?_,fun one two => ?_⟩ <;> rw [one,two]
    rfl

theorem outside_repair (outside : ¬ (Inside m desc GPT_PRIMARY_PARTITION_TABLE_LBA ∧ Inside m desc (last_lba desc))) :
    ∃ fault, gpt_repair_headers m entries_offset desc = (.error fault,[]) := by
  cases looked : is_gpt_valid m desc GPT_PRIMARY_PARTITION_TABLE_LBA with
  | error fault =>
    rw [gpt_repair_headers,looked]
    exact ⟨fault,rfl⟩
  | ok valid =>
    cases looked' : is_gpt_valid m desc (last_lba desc) with
    | error fault =>
      rw [gpt_repair_headers,looked,looked']
      exact ⟨fault,rfl⟩
    | ok valid' =>
      exact absurd ⟨is_gpt_valid_returns_iff.mp ⟨valid,looked⟩,is_gpt_valid_returns_iff.mp ⟨valid',looked'⟩⟩ outside

/-- The header and the entries of the copy are written for the other place. -/
def Goes (m : Machine) (desc : BlkDesc) (src place : ℕ) : Prop :=
  Writable m desc (header_at (blocks_at desc src)).alternate_lba 1 ∧
    Writable m desc place (written_blocks m desc src) ∧ written_blocks m desc src*desc.blksz ≤ room_for m desc src

theorem turn_word (turn : Turn m entries_offset desc src target place) : place < 2^64 := by
  rcases turn with ⟨_,_,rfl⟩ | ⟨_,_,rfl⟩
  · exact Nat.mod_lt _ (by norm_num)
  unfold partition_entries_offset
  cases entries_offset with
  | none => simp
  | some offset_bytes =>
    have small := Nat.mod_lt (PAD_TO_BLOCKSIZE m desc offset_bytes) (by norm_num : 2^32 > 0)
    have less := Nat.div_le_self (PAD_TO_BLOCKSIZE m desc offset_bytes%2^32) desc.blksz
    dsimp only
    split
    · norm_num
    · omega

theorem write_one_spec {gpt_h : ℕ → UInt8} (gpt_e : Block) {my_lba blkcnt : ℕ} (my : (header_at gpt_h).my_lba = my_lba)
    (entries : (header_at gpt_h).partition_entry_lba = place) (count : pte_blk_cnt m desc (header_at gpt_h) = blkcnt) :
    write_one_gpt_table m desc gpt_h gpt_e =
      if ¬ Writable m desc my_lba 1 then (.ok (-1),[])
      else if ¬ Writable m desc place blkcnt then (.ok (-1),[(my_lba,load gpt_h 0 desc.blksz)])
      else if gpt_e.size < blkcnt*desc.blksz then (.error .table,[(my_lba,load gpt_h 0 desc.blksz)])
      else (.ok 0,[(my_lba,load gpt_h 0 desc.blksz),(place,load gpt_e.bytes 0 (blkcnt*desc.blksz))]) := by
  subst my entries count
  rfl

theorem exchanged_places {block : ℕ → UInt8}
    (header : header_at block = exchanged (header_at (blocks_at desc src)) place (header_crc32 m block)) :
    (header_at block).my_lba = (header_at (blocks_at desc src)).alternate_lba ∧ (header_at block).partition_entry_lba = place ∧
      pte_blk_cnt m desc (header_at block) = written_blocks m desc src := by
  rw [header]
  exact ⟨rfl,rfl,rfl⟩

theorem alone_run (copy : Copy m desc src) (word : place < 2^64) : ∃ block,
    header_at block = exchanged (header_at (blocks_at desc src)) place (header_crc32 m block) ∧
      (Goes m desc src place → write_made m desc (swapped m desc (blocks_at desc src) place) (table_at m desc src) =
        (.ok 0,made m desc src place block)) ∧
      (¬ Goes m desc src place →
        (write_made m desc (swapped m desc (blocks_at desc src) place) (table_at m desc src)).1 ≠ .ok 0) := by
  obtain ⟨block,made_block,header⟩ := @swapped_spec m desc (blocks_at desc src) place copy.inside word
  refine ⟨block,header,?_⟩
  obtain ⟨my,entries,count⟩ := exchanged_places header
  rw [made_block,write_made,write_one_spec _ my entries count]
  rw [Goes]
  by_cases first : Writable m desc (header_at (blocks_at desc src)).alternate_lba 1
  swap
  · rw [if_pos first]
    exact ⟨fun goes => absurd goes.1 first,fun _ => by simp⟩
  rw [if_neg (not_not.mpr first)]
  by_cases second : Writable m desc place (written_blocks m desc src)
  swap
  · rw [if_pos second]
    exact ⟨fun goes => absurd goes.2.1 second,fun _ => by simp⟩
  rw [if_neg (not_not.mpr second)]
  by_cases outside : (table_at m desc src).size < written_blocks m desc src*desc.blksz
  · rw [if_pos outside]
    exact ⟨fun goes => absurd goes.2.2 (not_le.mpr outside),fun _ => by simp⟩
  · rw [if_neg outside]
    exact ⟨fun _ => rfl,fun stays => absurd ⟨first,second,Nat.le_of_not_lt outside⟩ stays⟩

/-- A header that is to be ignored is written at the place of its alternate, if it is not
    longer than a block and the place can be written. -/
def Spreads (m : Machine) (desc : BlkDesc) (src : ℕ) : Prop :=
  (header_at (blocks_at desc src)).header_size ≤ desc.blksz ∧
    Writable m desc (header_at (blocks_at desc src)).alternate_lba 1

theorem misled_run (word : place < 2^64) :
    (write_made m desc (swapped m desc (blocks_at desc src) place) null).2 ≠ [] ↔ Spreads m desc src := by
  rw [Spreads]
  by_cases long : desc.blksz < (header_at (blocks_at desc src)).header_size
  · rw [swapped]
    dsimp only
    rw [if_pos long,write_made]
    exact ⟨fun some_write => absurd rfl some_write,fun inside => absurd inside.1 (not_le.mpr long)⟩
  obtain ⟨block,made_block,header⟩ := @swapped_spec m desc (blocks_at desc src) place (Nat.le_of_not_lt long) word
  obtain ⟨my,entries,count⟩ := exchanged_places header
  rw [made_block,write_made,write_one_spec _ my entries count]
  by_cases first : Writable m desc (header_at (blocks_at desc src)).alternate_lba 1
  · rw [if_neg (not_not.mpr first)]
    refine ⟨fun _ => ⟨Nat.le_of_not_lt long,first⟩,fun _ => ?_⟩
    split
    · simp
    · split <;> simp
  · rw [if_pos first]
    exact ⟨fun some_write => absurd rfl some_write,fun inside => absurd inside.2 first⟩

/-- A header that is to be ignored counts as a valid copy: the other copy is not
    repaired, or it is overwritten. -/
def Misled (m : Machine) (entries_offset : Option ℕ) (desc : BlkDesc) : Prop :=
  Inside m desc GPT_PRIMARY_PARTITION_TABLE_LBA ∧ Inside m desc (last_lba desc) ∧
    ∃ src other place, Turn m entries_offset desc src other place ∧ Ignored m desc src ∧
      (Copy m desc other ∨ ¬ Ignored m desc other ∧ Spreads m desc src)

/-- The copy that is alone is written somewhere else, and the other one stays as it is. -/
def Missed (m : Machine) (entries_offset : Option ℕ) (desc : BlkDesc) : Prop :=
  Inside m desc GPT_PRIMARY_PARTITION_TABLE_LBA ∧ Inside m desc (last_lba desc) ∧
    ∃ src other place, Turn m entries_offset desc src other place ∧ Copy m desc src ∧ ¬ Copy m desc other ∧
      ¬ Ignored m desc other ∧ Goes m desc src place ∧
        Untouched m desc other (header_at (blocks_at desc src)).alternate_lba 1 ∧
          Untouched m desc other place (written_blocks m desc src)

/-- A copy that is alone and is written lands at the other place. -/
def Placed (m : Machine) (entries_offset : Option ℕ) (desc : BlkDesc) : Prop :=
  ∀ src other place, Turn m entries_offset desc src other place → Inside m desc other → Copy m desc src →
    ¬ Copy m desc other → ¬ Ignored m desc other → Goes m desc src place → Lands m desc src other place

theorem only_valid (src other : ℕ) : (∃ gpt_head gpt_pte, OnlyValid m desc src other gpt_head gpt_pte) ↔
    Copy m desc src ∧ ¬ Copy m desc other := by
  constructor
  · rintro ⟨gpt_head,gpt_pte,valid,alone⟩
    exact ⟨(valid_copy valid).1,fun copy => alone _ _ (copy_valid copy)⟩
  · rintro ⟨copy,alone⟩
    exact ⟨_,_,copy_valid copy,fun _ _ valid => alone (valid_copy valid).1⟩

theorem turn_either {P : ℕ → ℕ → Prop} (turn : Turn m entries_offset desc src target place)
    (either : P GPT_PRIMARY_PARTITION_TABLE_LBA (last_lba desc) ∨ P (last_lba desc) GPT_PRIMARY_PARTITION_TABLE_LBA) :
    P src target ∨ P target src := by
  rcases turn with ⟨here,there,_⟩ | ⟨here,there,_⟩
  · rw [here,there]
    exact either
  · rw [here,there]
    exact either.symm

theorem turn_mem (turn : Turn m entries_offset desc src target place) :
    src ∈ [GPT_PRIMARY_PARTITION_TABLE_LBA,last_lba desc] ∧ target ∈ [GPT_PRIMARY_PARTITION_TABLE_LBA,last_lba desc] ∧
      ∀ lba ∈ [GPT_PRIMARY_PARTITION_TABLE_LBA,last_lba desc], lba = src ∨ lba = target := by
  rcases turn with ⟨here,there,_⟩ | ⟨here,there,_⟩
  · rw [here,there]
    simp
  · rw [here,there]
    simp [or_comm]

theorem only_turn (turn : Turn m entries_offset desc src target place) :
    (∃ gpt_head gpt_pte, OnlyValid m desc GPT_PRIMARY_PARTITION_TABLE_LBA (last_lba desc) gpt_head gpt_pte ∨
      OnlyValid m desc (last_lba desc) GPT_PRIMARY_PARTITION_TABLE_LBA gpt_head gpt_pte) ↔
    (Copy m desc src ∧ ¬ Copy m desc target) ∨ (Copy m desc target ∧ ¬ Copy m desc src) := by
  simp only [exists_or,only_valid]
  rcases turn with ⟨here,there,_⟩ | ⟨here,there,_⟩
  · rw [here,there]
  · rw [here,there]
    exact or_comm

theorem ignored_no_copy (ignored : Ignored m desc lba) : ¬ Copy m desc lba :=
  fun copy => read_not_ignored copy.accepted.header ignored

theorem one_repair (turn : Turn m entries_offset desc src target place)
    (inside : Inside m desc GPT_PRIMARY_PARTITION_TABLE_LBA ∧ Inside m desc (last_lba desc)) (invalid : ¬ Copy m desc target)
    (read : ¬ Ignored m desc target) :
    (Copy m desc src → gpt_repair_headers m entries_offset desc =
      write_made m desc (swapped m desc (blocks_at desc src) place) (table_at m desc src)) ∧
    (Ignored m desc src → gpt_repair_headers m entries_offset desc = write_made m desc (swapped m desc (blocks_at desc src) place) null) := by
  obtain ⟨one,two,taken,taken',_,run,_⟩ := repair_run turn inside
  cases taken' with
  | copy copy' => exact absurd copy' invalid
  | ignored ignored => exact absurd ignored read
  | invalid _ _ =>
    cases taken with
    | copy copy => exact ⟨fun _ => run _ rfl rfl,fun ignored => absurd copy (ignored_no_copy ignored)⟩
    | ignored ignored => exact ⟨fun copy => absurd copy (ignored_no_copy ignored),fun _ => run _ rfl rfl⟩
    | invalid other other' => exact ⟨fun copy => absurd copy other,fun ignored => absurd ignored other'⟩

theorem missed_fails (missed : Missed m entries_offset desc) : ¬ Repairs m entries_offset desc := by
  obtain ⟨inside,inside',src,other,place,turn,copy,invalid,read,goes,header_apart,table_apart⟩ := missed
  intro repairs
  obtain ⟨block,_,ran,_⟩ := alone_run copy (turn_word turn)
  have run := ((one_repair turn ⟨inside,inside'⟩ invalid read).1 copy).trans (ran goes)
  obtain ⟨gpt_head,gpt_pte,only⟩ := (only_turn turn).mpr (Or.inl ⟨copy,invalid⟩)
  obtain ⟨_,_,valid,_⟩ := repairs.repaired gpt_head gpt_pte only (by rw [run]) other (turn_mem turn).2.1
  have kept : Agree m desc (written desc (gpt_repair_headers m entries_offset desc).2) other := by
    rw [run,made]
    exact both_untouched (load_length _ _ _) header_apart table_apart
  exact invalid (agree_copy (agree_symm kept) (valid_copy valid).1)

theorem both_repair (turn : Turn m entries_offset desc src target place)
    (inside : Inside m desc GPT_PRIMARY_PARTITION_TABLE_LBA ∧ Inside m desc (last_lba desc))
    (first : Copy m desc src ∨ Ignored m desc src) (second : Copy m desc target ∨ Ignored m desc target) :
    gpt_repair_headers m entries_offset desc = (.ok 0,[]) := by
  obtain ⟨one,two,taken,taken',run,_,_⟩ := repair_run turn inside
  cases taken with
  | copy _ | ignored _ =>
    cases taken' with
    | copy _ | ignored _ => exact run _ _ rfl rfl
    | invalid invalid read => exact absurd second (not_or.mpr ⟨invalid,read⟩)
  | invalid invalid read => exact absurd first (not_or.mpr ⟨invalid,read⟩)

theorem misled_fails (misled : Misled m entries_offset desc) : ¬ Repairs m entries_offset desc := by
  obtain ⟨inside,inside',src,other,place,turn,ignored,bad⟩ := misled
  intro repairs
  have no_copy := ignored_no_copy ignored
  by_cases copy : Copy m desc other
  · have run := both_repair turn ⟨inside,inside'⟩ (Or.inr ignored) (Or.inl copy)
    obtain ⟨gpt_head,gpt_pte,only⟩ := (only_turn turn).mpr (Or.inr ⟨copy,no_copy⟩)
    obtain ⟨_,_,valid,_⟩ := repairs.repaired gpt_head gpt_pte only (by rw [run]) src (turn_mem turn).1
    rw [run] at valid
    exact no_copy (valid_copy valid).1
  · obtain ⟨read,spreads⟩ := bad.resolve_left copy
    have run := (one_repair turn ⟨inside,inside'⟩ copy read).2 ignored
    have some_write : (gpt_repair_headers m entries_offset desc).2 ≠ [] := by
      rw [run]
      exact (misled_run (turn_word turn)).mpr spreads
    rcases (only_turn turn).mp (repairs.source some_write) with ⟨copy',_⟩ | ⟨copy',_⟩
    · exact no_copy copy'
    · exact copy copy'

theorem quiet_repairs (quiet : (gpt_repair_headers m entries_offset desc).2 = [])
    (both : (gpt_repair_headers m entries_offset desc).1 = .ok 0 →
      (Copy m desc GPT_PRIMARY_PARTITION_TABLE_LBA ↔ Copy m desc (last_lba desc))) : Repairs m entries_offset desc := by
  refine ⟨fun gpt_head gpt_pte only repaired => ?_,fun _ _ => quiet,fun some_write => absurd quiet some_write⟩
  have same := both repaired
  have backup : Turn m entries_offset desc GPT_PRIMARY_PARTITION_TABLE_LBA (last_lba desc) _ := Or.inl ⟨rfl,rfl,rfl⟩
  rcases (only_turn backup).mp ⟨gpt_head,gpt_pte,only⟩ with ⟨copy,invalid⟩ | ⟨copy,invalid⟩
  · exact absurd (same.mp copy) invalid
  · exact absurd (same.mpr copy) invalid

theorem alone_repairs (turn : Turn m entries_offset desc src target place)
    (inside : Inside m desc GPT_PRIMARY_PARTITION_TABLE_LBA ∧ Inside m desc (last_lba desc)) (copy : Copy m desc src)
    (invalid : ¬ Copy m desc target) (read : ¬ Ignored m desc target)
    (lands : Goes m desc src place → Lands m desc src target place) : Repairs m entries_offset desc := by
  have run := (one_repair turn inside invalid read).1 copy
  obtain ⟨block,header,goes,stays⟩ := alone_run copy (turn_word turn)
  rw [← run] at goes stays
  have places := turn_mem turn
  refine ⟨fun gpt_head gpt_pte only repaired lba member => ?_,fun first second => ?_,fun _ => ?_⟩
  · obtain ⟨valid,_⟩ | ⟨valid,_⟩ :=
      @turn_either m entries_offset desc src target place (fun a b => OnlyValid m desc a b gpt_head gpt_pte) turn only
    swap
    · exact absurd (valid_copy valid).1 invalid
    obtain ⟨_,rfl,rfl⟩ := valid_copy valid
    have written : Goes m desc src place := by
      by_contra none_written
      exact stays none_written repaired
    obtain ⟨copy',same⟩ := landed copy (lands written) header
    have kept := source_kept (lands written) block
    rw [goes written]
    rcases places.2.2 lba member with rfl | rfl
    · exact ⟨_,_,copy_valid (agree_copy kept copy),same_table_agree copy kept⟩
    · exact ⟨_,_,copy_valid copy',same⟩
  · obtain ⟨_,_,valid⟩ := first
    obtain ⟨_,_,valid'⟩ := second
    rcases mem_pair.mp places.2.1 with here | here
    · rw [here] at invalid
      exact absurd (valid_copy valid).1 invalid
    · rw [here] at invalid
      exact absurd (valid_copy valid').1 invalid
  · exact (only_turn turn).mpr (Or.inl ⟨copy,invalid⟩)

theorem turn_repairs (followed : ¬ Misled m entries_offset desc) (placed : Placed m entries_offset desc)
    (turn : Turn m entries_offset desc src target place)
    (inside : Inside m desc GPT_PRIMARY_PARTITION_TABLE_LBA ∧ Inside m desc (last_lba desc))
    (invalid : ¬ Copy m desc target) (read : ¬ Ignored m desc target) : Repairs m entries_offset desc := by
  have inside_target : Inside m desc target := by
    rcases turn with ⟨_,there,_⟩ | ⟨_,there,_⟩
    · rw [there]
      exact inside.2
    · rw [there]
      exact inside.1
  by_cases copy : Copy m desc src
  · exact alone_repairs turn inside copy invalid read (placed src target place turn inside_target copy invalid read)
  have none_valid : ∀ lba ∈ [GPT_PRIMARY_PARTITION_TABLE_LBA,last_lba desc], ¬ Copy m desc lba := by
    intro lba member
    rcases (turn_mem turn).2.2 lba member with rfl | rfl
    · exact copy
    · exact invalid
  have same : Copy m desc GPT_PRIMARY_PARTITION_TABLE_LBA ↔ Copy m desc (last_lba desc) :=
    iff_of_false (none_valid _ (by simp)) (none_valid _ (by simp))
  refine quiet_repairs ?_ fun _ => same
  by_cases ignored : Ignored m desc src
  · rw [(one_repair turn inside invalid read).2 ignored]
    by_contra some_write
    have spreads := (misled_run (turn_word turn)).mp some_write
    exact followed ⟨inside.1,inside.2,src,target,place,turn,ignored,Or.inr ⟨read,spreads⟩⟩
  obtain ⟨one,two,taken,taken',_,_,run⟩ := repair_run turn inside
  cases taken with
  | copy copy' => exact absurd copy' copy
  | ignored ignored' => exact absurd ignored' ignored
  | invalid _ _ =>
    cases taken' with
    | copy copy' => exact absurd copy' invalid
    | ignored ignored' => exact absurd ignored' read
    | invalid _ _ => rw [run rfl rfl]

theorem placed_repairs (followed : ¬ Misled m entries_offset desc) (placed : Placed m entries_offset desc) :
    Repairs m entries_offset desc := by
  by_cases inside : Inside m desc GPT_PRIMARY_PARTITION_TABLE_LBA ∧ Inside m desc (last_lba desc)
  swap
  · obtain ⟨fault,run⟩ := @outside_repair m entries_offset desc inside
    exact quiet_repairs (by rw [run]) fun returned => by simp [run] at returned
  have backup : Turn m entries_offset desc GPT_PRIMARY_PARTITION_TABLE_LBA (last_lba desc) _ := Or.inl ⟨rfl,rfl,rfl⟩
  have primary : Turn m entries_offset desc (last_lba desc) GPT_PRIMARY_PARTITION_TABLE_LBA _ := Or.inr ⟨rfl,rfl,rfl⟩
  by_cases second : Copy m desc (last_lba desc) ∨ Ignored m desc (last_lba desc)
  swap
  · exact turn_repairs followed placed backup inside (not_or.mp second).1 (not_or.mp second).2
  by_cases first : Copy m desc GPT_PRIMARY_PARTITION_TABLE_LBA ∨ Ignored m desc GPT_PRIMARY_PARTITION_TABLE_LBA
  swap
  · exact turn_repairs followed placed primary inside (not_or.mp first).1 (not_or.mp first).2
  have run := both_repair backup inside first second
  refine quiet_repairs (by rw [run]) fun _ => ⟨fun copy => ?_,fun copy => ?_⟩
  · refine second.resolve_right fun ignored => followed ⟨inside.1,inside.2,_,_,_,primary,ignored,Or.inl copy⟩
  · refine first.resolve_right fun ignored => followed ⟨inside.1,inside.2,_,_,_,backup,ignored,Or.inl copy⟩
end

/-- A disk with a header that is to be ignored, whose alternate is block 5, and nothing else. -/
theorem last_sector_lt : 128 < 2^64 := by norm_num

theorem sector_min : 512 ≤ 512 := le_rfl

def ignored_disk : BlkDesc where
  lba := 128
  blksz := 512
  bytes := store (fun _ => 0) 512 (little 8 GPT_HEADER_CHROMEOS_IGNORE ++ (little 4 0x10000 ++ (little 4 92 ++
    (little 8 0 ++ (little 8 1 ++ little 8 5)))))
  lba_lt := last_sector_lt
  blksz_min := sector_min

end UBoot.GptRepair
