import UBoot.GptRepair

/-!
Where `gpt_fill_pte` in `disk/part_efi.c` puts partitions, with the header that `gpt_fill_header`
fills in for a disk of any number of blocks of any size. A partition has the start that is asked
for, or it follows the one before. Partitions are not compared with each other, and a partition
without a size and a sum that wraps pass the comparisons.
-/
namespace UBoot.GptLayout
open UBoot.Uuid UBoot.GptBounds UBoot.GptRepair List Option
open UBoot.PartEfi (Build DiskPartition GptHeader GptEntry type_guid_of efi_name gpt_entry_size gpt_header_size
  GPT_HEADER_SIGNATURE_UBOOT GPT_HEADER_REVISION_V1 GPT_ENTRY_NUMBERS ENOSPC E2BIG EINVAL)

def gpt_fill_header (m : Machine) (build : Build) (desc : BlkDesc) (str_guid : List Char) : Option GptHeader :=
  let partition_entry_lba := partition_entries_offset m build.entries_offset desc
  (uuid_str_to_bin build.uuid_guid_get_bin str_guid).map fun disk_guid =>
    { signature := GPT_HEADER_SIGNATURE_UBOOT
      revision := GPT_HEADER_REVISION_V1
      header_size := gpt_header_size
      header_crc32 := 0
      reserved1 := 0
      my_lba := 1
      alternate_lba := last_lba desc
      first_usable_lba := (partition_entry_lba+32)%2^64
      last_usable_lba := (desc.lba+2^64-34)%2^64
      disk_guid
      partition_entry_lba
      num_partition_entries := GPT_ENTRY_NUMBERS
      sizeof_partition_entry := gpt_entry_size
      partition_entry_array_crc32 := 0 }

/-- The block behind the entries, as `gpt_fill_pte` has it. -/
def pte_end (m : Machine) (desc : BlkDesc) (h : GptHeader) : ℕ :=
  (h.partition_entry_lba+table_size h/desc.blksz)%m.size_t

/-- The partition is found to overlap the header or the entries. -/
def Overlaps (m : Machine) (desc : BlkDesc) (h : GptHeader) (start size : ℕ) : Prop :=
  let hdr_start := h.my_lba
  let hdr_end := hdr_start+1
  let pte_start := h.partition_entry_lba
  (start < hdr_end ∧ hdr_start < (start+size)%2^64) ∨ (start < pte_end m desc h ∧ pte_start < (start+size)%2^64)

instance (m : Machine) (desc : BlkDesc) (h : GptHeader) (start size : ℕ) : Decidable (Overlaps m desc h start size) :=
  inferInstanceAs (Decidable (_ ∨ _))

/-- The loop of `gpt_fill_pte`, from an offset on. -/
def fill_ptes (m : Machine) (build : Build) (desc : BlkDesc) (h : GptHeader) : ℕ → List DiskPartition → Except ℤ (List GptEntry)
  | _, [] => .ok []
  | offset, p :: rest =>
    let start := if p.start ≠ 0 then p.start else offset
    let offset := (start+p.size)%2^64
    if Overlaps m desc h start p.size then .error (-ENOSPC)
    else if (h.last_usable_lba+1)%2^64 < offset then .error (-E2BIG)
    else
      -- extend the last partition to maximum
      let ending_lba := if rest.isEmpty ∧ p.size = 0 then h.last_usable_lba else (offset+2^64-1)%2^64
      match type_guid_of build p, uuid_str_to_bin build.uuid_guid_get_bin p.uuid with
      | some partition_type_guid, some unique_partition_guid =>
        let attributes := if p.bootable%2 = 1 then 4 else 0
        (fill_ptes m build desc h offset rest).map fun entries =>
          ⟨partition_type_guid,unique_partition_guid,start,ending_lba,attributes,efi_name p.name⟩ :: entries
      | _, _ => .error (-EINVAL)

/-- `gpt_fill_pte`, with the entries that are written, one behind the other. -/
def gpt_fill_pte (m : Machine) (build : Build) (desc : BlkDesc) (h : GptHeader) (partitions : List DiskPartition) :
    Except ℤ (List GptEntry) :=
  fill_ptes m build desc h h.first_usable_lba partitions

/-- The blocks of the entries, which the table has room for. -/
def entry_blocks (desc : BlkDesc) : ℕ := (GPT_ENTRY_NUMBERS*gpt_entry_size-1)/desc.blksz+1

/-- A block that partitions have to leave alone: the protective MBR, the header and the entries. -/
def Reserved (desc : BlkDesc) (h : GptHeader) (block : ℕ) : Prop :=
  block = 0 ∨ block = h.my_lba ∨ (h.partition_entry_lba ≤ block ∧ block < h.partition_entry_lba+entry_blocks desc)

/-- No entry is outside of the array, ends before it starts or behind the last usable
    block, or has a reserved block; no two entries have a block in common; and no end of a
    partition wraps. -/
structure Harmless (desc : BlkDesc) (h : GptHeader) (partitions : List DiskPartition) (entries : List GptEntry) : Prop where
  few : entries.length ≤ GPT_ENTRY_NUMBERS
  ordered : ∀ e ∈ entries, e.starting_lba ≤ e.ending_lba ∧ e.ending_lba ≤ h.last_usable_lba
  reserved : ∀ e ∈ entries, ∀ block, e.starting_lba ≤ block → block ≤ e.ending_lba → ¬ Reserved desc h block
  disjoint : entries.Pairwise fun e e' => ∀ block, ¬ ((e.starting_lba ≤ block ∧ block ≤ e.ending_lba) ∧
    e'.starting_lba ≤ block ∧ block ≤ e'.ending_lba)
  sums : ∀ x ∈ partitions.zip entries, x.2.starting_lba+x.1.size < 2^64

/-- The first block of each partition and the one behind its last: where it is asked to
    start or behind the one before, and the last one without a size up to the last usable
    block. -/
def ranges (last_usable_lba : ℕ) : ℕ → List DiskPartition → List (ℕ × ℕ)
  | _, [] => []
  | offset, p :: rest =>
    let start := if p.start ≠ 0 then p.start else offset
    (start,if rest.isEmpty ∧ p.size = 0 then last_usable_lba+1 else start+p.size) ::
      ranges last_usable_lba (start+p.size) rest

/-- No sum of a start and a size reaches 64 bits. -/
def NoWrap : ℕ → List DiskPartition → Prop
  | _, [] => True
  | offset, p :: rest =>
    let start := if p.start ≠ 0 then p.start else offset
    start+p.size < 2^64 ∧ NoWrap (start+p.size) rest

def Clear (desc : BlkDesc) (h : GptHeader) (range : ℕ × ℕ) : Prop :=
  2 ≤ range.1 ∧ (range.2 ≤ h.partition_entry_lba ∨ h.partition_entry_lba+entry_blocks desc ≤ range.1)

/-- What is asked for is harmless where `gpt_fill_pte` does not look: not more partitions than
    entries, sums that do not wrap, a size for all but the last, which is clear of the table
    without one, and ranges that do not overlap. -/
structure Sensible (desc : BlkDesc) (h : GptHeader) (partitions : List DiskPartition) : Prop where
  few : partitions.length ≤ GPT_ENTRY_NUMBERS
  sums : NoWrap h.first_usable_lba partitions
  sizes : ∀ range ∈ ranges h.last_usable_lba h.first_usable_lba partitions, range.1 < range.2
  unchecked : ∀ x ∈ partitions.zip (ranges h.last_usable_lba h.first_usable_lba partitions),
    x.1.size = 0 ∨ ¬ desc.blksz ∣ GPT_ENTRY_NUMBERS*gpt_entry_size → Clear desc h x.2
  apart : (ranges h.last_usable_lba h.first_usable_lba partitions).Pairwise fun a b => a.2 ≤ b.1 ∨ b.2 ≤ a.1

/-! ## What is filled in -/

section
variable {m : Machine} {build : Build} {desc : BlkDesc} {h : GptHeader}

variable {entries : List GptEntry} {offset : ℕ} {partitions : List DiskPartition}

theorem fill_cons {p : DiskPartition} {rest : List DiskPartition}
    (filled : fill_ptes m build desc h offset (p :: rest) = .ok entries) {start : ℕ}
    (begins : (if p.start ≠ 0 then p.start else offset) = start) :
    ∃ e later, entries = e :: later ∧ ¬ Overlaps m desc h start p.size ∧
      (start+p.size)%2^64 ≤ (h.last_usable_lba+1)%2^64 ∧ e.starting_lba = start ∧
      e.ending_lba = (if rest.isEmpty ∧ p.size = 0 then h.last_usable_lba else ((start+p.size)%2^64+2^64-1)%2^64) ∧
      fill_ptes m build desc h ((start+p.size)%2^64) rest = .ok later := by
  rw [fill_ptes] at filled
  dsimp only at filled
  rw [begins] at filled
  by_cases overlaps : Overlaps m desc h start p.size
  · rw [if_pos overlaps] at filled
    cases filled
  rw [if_neg overlaps] at filled
  by_cases beyond : (h.last_usable_lba+1)%2^64 < (start+p.size)%2^64
  · rw [if_pos beyond] at filled
    cases filled
  rw [if_neg beyond] at filled
  cases type : type_guid_of build p with
  | none =>
    rw [type] at filled
    cases filled
  | some type_guid =>
    cases uuid : uuid_str_to_bin build.uuid_guid_get_bin p.uuid with
    | none =>
      rw [type,uuid] at filled
      cases filled
    | some unique =>
      rw [type,uuid] at filled
      cases later : fill_ptes m build desc h ((start+p.size)%2^64) rest with
      | error ret =>
        rw [later] at filled
        cases filled
      | ok entries' =>
        rw [later] at filled
        cases filled
        exact ⟨_,entries',rfl,overlaps,Nat.le_of_not_lt beyond,rfl,rfl,rfl⟩

theorem sums_iff
    (filled : fill_ptes m build desc h offset partitions = .ok entries) :
    (∀ x ∈ partitions.zip entries, x.2.starting_lba+x.1.size < 2^64) ↔ NoWrap offset partitions := by
  induction partitions generalizing offset entries with
  | nil => simp [NoWrap]
  | cons p rest ih =>
    obtain ⟨e,later,rfl,_,_,starting,_,filled'⟩ := fill_cons filled rfl
    rw [zip_cons_cons,forall_mem_cons,starting,NoWrap]
    refine and_congr_right fun whole => ?_
    have later_iff := ih filled'
    rwa [Nat.mod_eq_of_lt whole] at later_iff

/-- The range of a partition that was compared with the header, the entries and the end. -/
def Checked (m : Machine) (desc : BlkDesc) (h : GptHeader) (x : DiskPartition × ℕ × ℕ) : Prop :=
  1 ≤ x.2.1 ∧ 1 ≤ x.2.2 ∧ x.2.2 ≤ h.last_usable_lba+1 ∧
    (x.1.size ≠ 0 → 2 ≤ x.2.1 ∧ (x.2.2 ≤ h.partition_entry_lba ∨ pte_end m desc h ≤ x.2.1))

theorem filled_ranges (my : h.my_lba = 1) (some_offset : 1 ≤ offset) (filled : fill_ptes m build desc h offset partitions = .ok entries)
    (whole : NoWrap offset partitions) :
    entries.map (fun e => (e.starting_lba,e.ending_lba+1)) = ranges h.last_usable_lba offset partitions ∧
      ∀ x ∈ partitions.zip (ranges h.last_usable_lba offset partitions), Checked m desc h x := by
  induction partitions generalizing offset entries with
  | nil =>
    rw [fill_ptes] at filled
    cases filled
    exact ⟨rfl,by simp⟩
  | cons p rest ih =>
    rw [NoWrap] at whole
    obtain ⟨start,begins⟩ : ∃ start, (if p.start ≠ 0 then p.start else offset) = start := ⟨_,rfl⟩
    obtain ⟨e,later,rfl,alone,inside,starting,ending,filled'⟩ := fill_cons filled begins
    rw [begins] at whole
    obtain ⟨fits,whole'⟩ := whole
    have some_start : 1 ≤ start := by
      rw [← begins]
      split <;> omega
    rw [Nat.mod_eq_of_lt fits] at inside ending filled'
    obtain ⟨same,checked⟩ := ih (by omega) filled' whole'
    have bound : (h.last_usable_lba+1)%2^64 ≤ h.last_usable_lba+1 := Nat.mod_le _ _
    have end_eq : e.ending_lba+1 = if rest.isEmpty ∧ p.size = 0 then h.last_usable_lba+1 else start+p.size := by
      rw [ending]
      split
      · rfl
      · omega
    rw [ranges,begins]
    refine ⟨by rw [map_cons,starting,end_eq,same],?_⟩
    rw [zip_cons_cons,forall_mem_cons]
    refine ⟨⟨some_start,?_,?_,fun some_size => ?_⟩,checked⟩
    · dsimp only
      split <;> omega
    · dsimp only
      split <;> omega
    · have some_blocks : p.size ≠ 0 := some_size
      rw [Overlaps,my,Nat.mod_eq_of_lt fits,not_or] at alone
      dsimp only
      rw [if_neg (fun extended => some_blocks extended.2)]
      obtain ⟨header,table⟩ := alone
      omega

theorem clear_iff (my : h.my_lba = 1) {first last : ℕ} (some_block : first ≤ last) (some_first : 1 ≤ first) :
    (∀ block, first ≤ block → block ≤ last → ¬ Reserved desc h block) ↔ Clear desc h (first,last+1) := by
  have some_entries : 0 < entry_blocks desc := Nat.succ_pos _
  rw [Clear]
  constructor
  · intro free
    have front : first ≠ 1 := fun one => free 1 (by omega) (by omega) (Or.inr (Or.inl my.symm))
    refine ⟨by dsimp only; omega,?_⟩
    dsimp only
    by_contra meets
    rw [not_or] at meets
    rcases le_total first h.partition_entry_lba with below | above
    · exact free h.partition_entry_lba below (by omega) (Or.inr (Or.inr ⟨le_rfl,by omega⟩))
    · exact free first le_rfl some_block (Or.inr (Or.inr ⟨above,by omega⟩))
  · rintro ⟨front,behind⟩ block above below (zero | header | ⟨entries,inside⟩)
    · dsimp only at front
      omega
    · rw [my] at header
      dsimp only at front
      omega
    · dsimp only at behind
      omega

/-- Two ranges that are not empty have no block in common if one is behind the other. -/
theorem apart_iff {first last first' last' : ℕ} (some_block : first ≤ last) (some_block' : first' ≤ last') :
    (∀ block, ¬ ((first ≤ block ∧ block ≤ last) ∧ first' ≤ block ∧ block ≤ last')) ↔ last+1 ≤ first' ∨ last'+1 ≤ first := by
  constructor
  · intro free
    have here := free (max first first')
    omega
  · intro apart block
    omega
theorem ranges_length (last_usable_lba offset : ℕ) (partitions : List DiskPartition) :
    (ranges last_usable_lba offset partitions).length = partitions.length := by
  induction partitions generalizing offset with
  | nil => rfl
  | cons p rest ih => rw [ranges,length_cons,length_cons,ih]

theorem forall_ranges {last_usable_lba offset : ℕ} {P : ℕ × ℕ → Prop} :
    (∀ r ∈ ranges last_usable_lba offset partitions, P r) ↔
      ∀ x ∈ partitions.zip (ranges last_usable_lba offset partitions), P x.2 := by
  have all := @List.map_snd_zip _ _ partitions (ranges last_usable_lba offset partitions) (by rw [ranges_length])
  conv_lhs => rw [← all]
  exact List.forall_mem_map

structure Header (m : Machine) (desc : BlkDesc) (h : GptHeader) : Prop where
  my : h.my_lba = 1
  first : 1 ≤ h.first_usable_lba
  pte_end : pte_end m desc h = h.partition_entry_lba+GPT_ENTRY_NUMBERS*gpt_entry_size/desc.blksz

theorem filled_header {str_guid : List Char} (filled : gpt_fill_header m build desc str_guid = some h) : Header m desc h := by
  obtain ⟨guid,_,rfl⟩ := map_eq_some_iff.mp filled
  have place : partition_entries_offset m build.entries_offset desc < 2^23+3 := by
    have blksz := desc.blksz_min
    unfold partition_entries_offset
    cases build.entries_offset with
    | none => simp
    | some offset_bytes =>
      have small := Nat.mod_lt (PAD_TO_BLOCKSIZE m desc offset_bytes) (by norm_num : 2^32 > 0)
      have blocks : PAD_TO_BLOCKSIZE m desc offset_bytes%2^32/desc.blksz ≤ 2^32/512 := Nat.div_le_div (by omega) blksz (by norm_num)
      dsimp only
      split <;> omega
  have word := m.word
  have blocks : GPT_ENTRY_NUMBERS*gpt_entry_size/desc.blksz ≤ 16384/512 := Nat.div_le_div le_rfl desc.blksz_min (by norm_num)
  refine ⟨rfl,?_,?_⟩
  · dsimp only
    omega
  · have size : GPT_ENTRY_NUMBERS*gpt_entry_size%2^32 = GPT_ENTRY_NUMBERS*gpt_entry_size := by decide
    rw [pte_end,table_size]
    dsimp only
    rw [size]
    exact Nat.mod_eq_of_lt (by omega)

theorem checked_clear (header : Header m desc h) {x : DiskPartition × ℕ × ℕ} (checked : Checked m desc h x)
    (some_size : x.1.size ≠ 0) (whole : desc.blksz ∣ GPT_ENTRY_NUMBERS*gpt_entry_size) : Clear desc h x.2 := by
  obtain ⟨_,_,_,compared⟩ := checked
  obtain ⟨front,behind⟩ := compared some_size
  have blksz := desc.blksz_min
  obtain ⟨blocks,product⟩ := whole
  have some_blocks : 0 < blocks := by
    rcases Nat.eq_zero_or_pos blocks with rfl | positive
    · rw [mul_zero] at product
      exact absurd product (by decide)
    · exact positive
  have floor : GPT_ENTRY_NUMBERS*gpt_entry_size/desc.blksz = blocks := by
    rw [product,Nat.mul_div_cancel_left _ (by omega)]
  have ceiling : entry_blocks desc = blocks := by
    obtain ⟨k,rfl⟩ : ∃ k, blocks = k+1 := ⟨blocks-1,by omega⟩
    have last : desc.blksz*(k+1)-1 = desc.blksz*k+(desc.blksz-1) := by
      rw [Nat.mul_succ]
      omega
    rw [entry_blocks,product,last,Nat.mul_add_div (by omega),Nat.div_eq_of_lt (by omega)]
  rw [header.pte_end,floor] at behind
  exact ⟨front,by rwa [ceiling]⟩

theorem harmless_iff (header : Header m desc h)
    (filled : gpt_fill_pte m build desc h partitions = .ok entries) :
    Harmless desc h partitions entries ↔ Sensible desc h partitions := by
  rw [gpt_fill_pte] at filled
  by_cases whole : NoWrap h.first_usable_lba partitions
  swap
  · exact ⟨fun harmless => absurd ((sums_iff filled).mp harmless.sums) whole,fun sensible => absurd sensible.sums whole⟩
  obtain ⟨same,checked⟩ := filled_ranges header.my header.first filled whole
  have number : entries.length = partitions.length := by
    rw [← ranges_length h.last_usable_lba h.first_usable_lba partitions,← same,length_map]
  obtain ⟨rs,rsIs⟩ : ∃ rs, rs = ranges h.last_usable_lba h.first_usable_lba partitions := ⟨_,rfl⟩
  rw [← rsIs] at same checked
  have each {P : ℕ × ℕ → Prop} : (∀ r ∈ rs, P r) ↔ ∀ x ∈ partitions.zip rs, P x.2 := rsIs ▸ forall_ranges
  have at_entries : ∀ {P : ℕ × ℕ → Prop}, (∀ r ∈ rs, P r) ↔
      ∀ e ∈ entries, P (e.starting_lba,e.ending_lba+1) := by
    intro P
    rw [← same]
    exact List.forall_mem_map
  have bounds : ∀ e ∈ entries, 1 ≤ e.starting_lba ∧ e.ending_lba ≤ h.last_usable_lba := by
    have all : ∀ r ∈ rs, 1 ≤ r.1 ∧ r.2 ≤ h.last_usable_lba+1 :=
      each.mpr fun x member => ⟨(checked x member).1,(checked x member).2.2.1⟩
    intro e member
    have here := at_entries.mp all e member
    exact ⟨here.1,Nat.le_of_succ_le_succ here.2⟩
  have ordered_iff : (∀ e ∈ entries, e.starting_lba ≤ e.ending_lba ∧ e.ending_lba ≤ h.last_usable_lba) ↔
      ∀ r ∈ rs, r.1 < r.2 := by
    rw [at_entries]
    refine forall₂_congr fun e member => ?_
    rw [and_iff_left (bounds e member).2,Nat.lt_succ_iff]
  have clear_all : (∀ r ∈ rs, Clear desc h r) ↔
      ∀ x ∈ partitions.zip rs,
        x.1.size = 0 ∨ ¬ desc.blksz ∣ GPT_ENTRY_NUMBERS*gpt_entry_size → Clear desc h x.2 := by
    rw [each]
    refine forall₂_congr fun x member => ⟨fun clear _ => clear,fun unchecked => ?_⟩
    by_cases compared : x.1.size = 0 ∨ ¬ desc.blksz ∣ GPT_ENTRY_NUMBERS*gpt_entry_size
    · exact unchecked compared
    · rw [not_or,not_not] at compared
      exact checked_clear header (checked x member) compared.1 compared.2
  have reserved_iff (ordered : ∀ e ∈ entries, e.starting_lba ≤ e.ending_lba ∧ e.ending_lba ≤ h.last_usable_lba) :
      (∀ e ∈ entries, ∀ block, e.starting_lba ≤ block → block ≤ e.ending_lba → ¬ Reserved desc h block) ↔
        ∀ r ∈ rs, Clear desc h r := by
    rw [at_entries]
    exact forall₂_congr fun e member => clear_iff header.my (ordered e member).1 (bounds e member).1
  have disjoint_iff (ordered : ∀ e ∈ entries, e.starting_lba ≤ e.ending_lba ∧ e.ending_lba ≤ h.last_usable_lba) :
      (entries.Pairwise fun e e' => ∀ block, ¬ ((e.starting_lba ≤ block ∧ block ≤ e.ending_lba) ∧
        e'.starting_lba ≤ block ∧ block ≤ e'.ending_lba)) ↔
      rs.Pairwise fun a b => a.2 ≤ b.1 ∨ b.2 ≤ a.1 := by
    rw [← same,pairwise_map]
    exact List.Pairwise.iff_of_mem fun member member' => apart_iff (ordered _ member).1 (ordered _ member').1
  subst rsIs
  constructor
  · intro harmless
    exact ⟨number ▸ harmless.few,whole,ordered_iff.mp harmless.ordered,
      clear_all.mp ((reserved_iff harmless.ordered).mp harmless.reserved),(disjoint_iff harmless.ordered).mp harmless.disjoint⟩
  · intro sensible
    have ordered := ordered_iff.mpr sensible.sizes
    exact ⟨number ▸ sensible.few,ordered,(reserved_iff ordered).mpr (clear_all.mpr sensible.unchecked),
      (disjoint_iff ordered).mpr sensible.apart,(sums_iff filled).mpr whole⟩
end

/-- The entries that are filled in are harmless exactly for a sensible list. -/
theorem gpt_fill_pte_harmless_iff {m : Machine} {build : Build} {desc : BlkDesc} {str_guid : List Char} {h : GptHeader}
    (header : gpt_fill_header m build desc str_guid = some h) {partitions : List DiskPartition} {entries : List GptEntry}
    (filled : gpt_fill_pte m build desc h partitions = .ok entries) :
    Harmless desc h partitions entries ↔ Sensible desc h partitions :=
  harmless_iff (filled_header header) filled

/-! ## A disk -/

def small_disk : BlkDesc where
  lba := 128
  blksz := 512
  bytes _ := 0
  lba_lt := last_sector_lt
  blksz_min := sector_min

def small_header : GptHeader := (gpt_fill_header steady PartEfi.small_build small_disk PartEfi.disk_text).get (by decide +kernel)

theorem small_header_filled : gpt_fill_header steady PartEfi.small_build small_disk PartEfi.disk_text = some small_header :=
  (some_get _).symm

theorem small_filled {partitions : List DiskPartition}
    (fills : (gpt_fill_pte steady PartEfi.small_build small_disk small_header partitions).toOption.isSome) :
    ∃ entries, gpt_fill_pte steady PartEfi.small_build small_disk small_header partitions = .ok entries := by
  cases run : gpt_fill_pte steady PartEfi.small_build small_disk small_header partitions with
  | error ret =>
    rw [run] at fills
    cases fills
  | ok entries => exact ⟨entries,rfl⟩

/-- A small partition, and one that takes the rest. -/
theorem boot_rootfs_harmless : ∃ entries,
    gpt_fill_pte steady PartEfi.small_build small_disk small_header [PartEfi.boot,PartEfi.rootfs] = .ok entries ∧
      Harmless small_disk small_header [PartEfi.boot,PartEfi.rootfs] entries := by
  obtain ⟨entries,filled⟩ := @small_filled [PartEfi.boot,PartEfi.rootfs] (by decide +kernel)
  refine ⟨entries,filled,(gpt_fill_pte_harmless_iff small_header_filled filled).mpr ?_⟩
  have first : small_header.first_usable_lba = 34 := by decide +kernel
  have last : small_header.last_usable_lba = 94 := by decide +kernel
  have place : small_header.partition_entry_lba = 2 := by decide +kernel
  have asked : ranges 94 34 [PartEfi.boot,PartEfi.rootfs] = [(34,50),(50,95)] := rfl
  refine ⟨by simp [GPT_ENTRY_NUMBERS],?_,?_,?_,?_⟩
  · rw [first]
    exact ⟨by decide,by decide,trivial⟩
  · rw [first,last,asked]
    simp
  · rw [first,last,asked]
    simp [Clear,place,entry_blocks,small_disk,GPT_ENTRY_NUMBERS,gpt_entry_size]
  · rw [first,last,asked]
    simp

def inner : DiskPartition := { PartEfi.boot with start := 40, start_lt := by norm_num }

/-- The second partition starts inside of the first one. -/
theorem overlap_accepted : ∃ entries,
    gpt_fill_pte steady PartEfi.small_build small_disk small_header [PartEfi.boot,inner] = .ok entries ∧
      ¬ Harmless small_disk small_header [PartEfi.boot,inner] entries := by
  obtain ⟨entries,filled⟩ := @small_filled [PartEfi.boot,inner] (by decide +kernel)
  refine ⟨entries,filled,fun harmless => ?_⟩
  have apart := ((harmless_iff (filled_header small_header_filled) filled).mp harmless).apart
  have first : small_header.first_usable_lba = 34 := by decide +kernel
  have last : small_header.last_usable_lba = 94 := by decide +kernel
  have asked : ranges 94 34 [PartEfi.boot,inner] = [(34,50),(40,56)] := rfl
  rw [first,last,asked] at apart
  simp at apart

end UBoot.GptLayout
