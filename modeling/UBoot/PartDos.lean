import UBoot.Words

/-!
MBR partition tables, `disk/part_dos.c`: the layout of a list of partitions on a disk, its
writing as a table in sector 0 with a chain of tables in the extended partition, and the search
for a partition by its number. `lbaint_t` has 64 bit; a sector is a function from offsets to
bytes, and only the bytes of the table are looked at. A search that does not end within so many
tables gives nothing.
-/
namespace UBoot.PartDos
open UBoot.Memory UBoot.Words List

def DOS_PART_DISKSIG_OFFSET : ℕ := 0x1b8
def DOS_PART_TBL_OFFSET : ℕ := 0x1be
def DOS_PART_MAGIC_OFFSET : ℕ := 0x1fe
def DOS_PBR_FSTYPE_OFFSET : ℕ := 0x36
def DOS_PBR32_FSTYPE_OFFSET : ℕ := 0x52
def DOS_PART_TYPE_EXTENDED : UInt8 := 0x05
def DOS_PART_TYPE_EXTENDED_LBA : UInt8 := 0x0f
def DOS_PART_TYPE_EXTENDED_LINUX : UInt8 := 0x85
def DOS_PART_DEFAULT_GAP : ℕ := 2048
def DOS_PART_DEFAULT_SECTOR : ℕ := 512
def MAX_EXT_PARTS : ℕ := 256
def PART_BOOTABLE : ℕ := 1
def PART_EFI_SYSTEM_PARTITION : ℕ := 2

/-- What of `struct disk_partition` a table keeps. -/
structure Partition where
  start : ℕ
  size : ℕ
  sys_ind : UInt8
  bootable : ℕ
  deriving DecidableEq, Repr

abbrev Sector := ℕ → UInt8
abbrev Disk := ℕ → Sector

/-- The device: its size and block size, and which sectors can be written. -/
structure Device where
  lba : ℕ
  blksz : ℕ
  writes : ℕ → Bool

def is_extended (part_type : UInt8) : Bool :=
  part_type = DOS_PART_TYPE_EXTENDED ∨ part_type = DOS_PART_TYPE_EXTENDED_LBA ∨ part_type = DOS_PART_TYPE_EXTENDED_LINUX

/-- What is left for a partition: the end of the free area and what is to be allocated in it
    behind the partition. With a gap in front of every partition the loop of the logical ones,
    without one that of the primary ones. -/
def room_behind (gap «end» : ℕ) : List Partition → ℕ → ℕ × ℕ
  | [], allocated => («end»,allocated)
  | p :: rest, allocated =>
    if p.start ≠ 0 then ((p.start+(2^64-gap))%2^64,allocated)
    else room_behind gap «end» rest ((allocated+p.size+gap)%2^64)

/-- One of the two loops of `layout_mbr_partitions`. -/
def layout_loop (gap «end» : ℕ) : ℕ → List Partition → List Partition
  | _, [] => []
  | pos, p :: rest =>
    let start := if p.start = 0 then (pos+gap)%2^64 else p.start
    let room := room_behind gap «end» rest 0
    let size := if p.size = 0 then (room.1+(2^64-room.2)+(2^64-start))%2^64 else p.size
    { p with start, size } :: layout_loop gap «end» ((start+size)%2^64) rest

/-- Partition start and size are calculated where they are zero. -/
def layout_mbr_partitions (p : List Partition) (total_sectors : ℕ) : Option (List Partition) :=
  let primary := layout_loop 0 total_sectors DOS_PART_DEFAULT_GAP (p.take 4)
  if p.length ≤ 4 then some primary
  else
    (primary.reverse.find? fun q => q.sys_ind = DOS_PART_TYPE_EXTENDED).map fun ext =>
      primary ++ layout_loop DOS_PART_DEFAULT_GAP ((ext.start+ext.size)%2^64) ext.start (p.drop 4)

def lba_to_chs (lba : ℕ) : UInt8 × UInt8 × UInt8 :=
  let sectpertrack := 63
  let heads := 255
  let c := (lba+1)%2^64/sectpertrack/heads%2^32
  let h := ((lba+1)%2^64/sectpertrack+(2^64-c*heads%2^32))%2^32
  let s := ((lba+1)%2^64+(2^64-(c*heads+h)*sectpertrack%2^32))%2^32
  if 1023 < c then (.ofNat (1023%256),254,.ofNat (63+(1023/256)*64))
  else (.ofNat (c%256),.ofNat h,.ofNat (s+c/256%4*64))

def mbr_fill_pt_entry (buffer : Sector) (pt start relative size : ℕ) (sys_ind : UInt8) (bootable : Bool) : Sector :=
  let first := lba_to_chs start
  let last := lba_to_chs ((start+size+(2^64-1))%2^64)
  store buffer pt ([if bootable then 0x80 else 0,first.2.1,first.2.2,first.1,sys_ind,last.2.1,last.2.2,last.1] ++
    (le32 relative ++ le32 size))

def blank : Sector := store (fun _ => 0) DOS_PART_MAGIC_OFFSET [0x55,0xaa]

/-- The loop over the primary partitions: the table, and the start of the extended partition. -/
def fill_primary : ℕ → List Partition → Sector → ℕ → Sector × ℕ
  | _, [], buffer, ext_part_start => (buffer,ext_part_start)
  | pt, p :: rest, buffer, ext_part_start =>
    fill_primary (pt+16) rest (mbr_fill_pt_entry buffer pt p.start p.start p.size p.sys_ind (p.bootable ≠ 0))
      (if is_extended p.sys_ind then p.start else ext_part_start)

def blk_dwrite (dev : Device) (disk : Disk) (sector : ℕ) (buffer : Sector) : Option Disk :=
  if dev.writes sector then some (Function.update disk sector buffer) else none

/-- The table of an extended volume: the partition relative to the table itself, and the next
    table relative to the extended partition. -/
def ebr (ext_part_start ext_part_sect : ℕ) (p : Partition) (rest : List Partition) : Sector :=
  let buffer := mbr_fill_pt_entry blank DOS_PART_TBL_OFFSET p.start ((p.start+(2^64-ext_part_sect))%2^64) p.size
    p.sys_ind (p.bootable ≠ 0)
  let next_ebr := (p.start+p.size)%2^64
  rest.head?.elim buffer fun next =>
    mbr_fill_pt_entry buffer (DOS_PART_TBL_OFFSET+16) next_ebr ((next_ebr+(2^64-ext_part_start))%2^64)
      ((next.start+next.size+(2^64-next_ebr))%2^64) DOS_PART_TYPE_EXTENDED false

def write_ebrs (dev : Device) (ext_part_start : ℕ) : ℕ → List Partition → Disk → Option Disk
  | _, [], disk => some disk
  | ext_part_sect, p :: rest, disk =>
    (blk_dwrite dev disk ext_part_sect (ebr ext_part_start ext_part_sect p rest)).bind
      (write_ebrs dev ext_part_start ((p.start+p.size)%2^64) rest)

def write_mbr_partitions (dev : Device) (disk : Disk) (p : List Partition) (disksig : ℕ) : Option Disk :=
  let buffer := store blank DOS_PART_DISKSIG_OFFSET (le32 disksig)
  let primary := fill_primary DOS_PART_TBL_OFFSET (p.take 4) buffer 0
  if 4 < p.length ∧ primary.2 = 0 then none
  else (blk_dwrite dev disk 0 primary.1).bind (write_ebrs dev primary.2 primary.2 (p.drop 4))

/-- `struct disk_partition` as far as a table tells. -/
structure Info where
  start : ℕ
  size : ℕ
  blksz : ℕ
  sys_ind : UInt8
  bootable : ℕ
  deriving DecidableEq, Repr

inductive BlockType where
  | DOS_MBR
  | DOS_PBR
  deriving DecidableEq

def slots : List ℕ := [DOS_PART_TBL_OFFSET,DOS_PART_TBL_OFFSET+16,DOS_PART_TBL_OFFSET+32,DOS_PART_TBL_OFFSET+48]

def boot_ind (buffer : Sector) (pt : ℕ) : UInt8 := buffer pt
def sys_ind (buffer : Sector) (pt : ℕ) : UInt8 := buffer (pt+4)
def start_sect (buffer : Sector) (pt : ℕ) : ℕ := word buffer (pt+8)
def nr_sects (buffer : Sector) (pt : ℕ) : ℕ := word buffer (pt+12)

def magic (buffer : Sector) : Bool := buffer DOS_PART_MAGIC_OFFSET = 0x55 ∧ buffer (DOS_PART_MAGIC_OFFSET+1) = 0xaa

def test_block_type (buffer : Sector) : Option BlockType :=
  if ¬ magic buffer then none
  else
    let valid := slots.takeWhile fun pt => boot_ind buffer pt = 0 ∨ boot_ind buffer pt = 0x80
    let part_count := valid.countP fun pt => sys_ind buffer pt ≠ 0
    if (valid.length ≠ 4 ∨ part_count = 0) ∧ (load buffer DOS_PBR_FSTYPE_OFFSET 3 = [70,65,84] ∨
        load buffer DOS_PBR32_FSTYPE_OFFSET 5 = [70,65,84,51,50]) then some .DOS_PBR
    else if valid.length = 4 then some .DOS_MBR
    else none

def get_bootable (buffer : Sector) (pt : ℕ) : ℕ :=
  (if sys_ind buffer pt = 0xef then PART_EFI_SYSTEM_PARTITION else 0) |||
    (if boot_ind buffer pt = 0x80 then PART_BOOTABLE else 0)

/-- The loop over the entries of a table: the number of the next partition, and the entry if it
    was found. -/
def find_part (buffer : Sector) (ext_part_sector which_part : ℕ) : List ℕ → ℕ → ℕ × Option ℕ
  | [], part_num => (part_num,none)
  | pt :: pts, part_num =>
    if boot_ind buffer pt &&& 0x7f = 0 ∧ sys_ind buffer pt ≠ 0 ∧ part_num = which_part ∧
        (ext_part_sector = 0 ∨ is_extended (sys_ind buffer pt) = false) then (part_num,some pt)
    else find_part buffer ext_part_sector which_part pts
      (if ext_part_sector = 0 ∨ sys_ind buffer pt ≠ 0 ∧ is_extended (sys_ind buffer pt) = false then part_num+1
        else part_num)

def info_blksz (dev : Device) : ℕ := if DOS_PART_DEFAULT_SECTOR < dev.blksz then dev.blksz else DOS_PART_DEFAULT_SECTOR

def entry_info (dev : Device) (buffer : Sector) (ext_part_sector pt : ℕ) : Info where
  start := (ext_part_sector+start_sect buffer pt)%2^64
  size := nr_sects buffer pt
  blksz := info_blksz dev
  sys_ind := sys_ind buffer pt
  bootable := get_bootable buffer pt

/-- `part_get_info_extended` over so many tables. -/
def part_get_info_extended (dev : Device) (disk : Disk) (info : Info) :
    ℕ → ℕ → ℕ → ℕ → ℕ → Option (Option Info)
  | 0, _, _, _, _ => none
  | tables+1, ext_part_sector, relative, part_num, which_part =>
    let buffer := disk ext_part_sector
    let found := find_part buffer ext_part_sector which_part slots part_num
    if MAX_EXT_PARTS < part_num ∨ ¬ magic buffer then some none
    else
      match found.2, slots.find? fun pt => is_extended (sys_ind buffer pt) with
      | some pt, _ => some (some (entry_info dev buffer ext_part_sector pt))
      -- Follows the extended partitions
      | none, some pt =>
        let lba_start := (start_sect buffer pt+relative)%2^64
        part_get_info_extended dev disk info tables lba_start (if ext_part_sector = 0 then lba_start else relative)
          found.1 which_part
      | none, none =>
        if test_block_type buffer = some .DOS_PBR then
          some (some { info with start := 0, size := dev.lba, blksz := info_blksz dev, bootable := 0 })
        else some none

def part_get_info_dos (dev : Device) (disk : Disk) (info : Info) (tables part : ℕ) : Option (Option Info) :=
  part_get_info_extended dev disk info tables 0 0 1 part

/-- From `pos` on there is room for the partitions, with a gap in front of each that has no start
    of its own; a size of zero asks for what is left. -/
def Fits (gap «end» : ℕ) : ℕ → List Partition → Prop
  | pos, [] => pos ≤ «end»
  | pos, p :: rest => (p.start ≠ 0 → pos+gap ≤ p.start) ∧
      Fits gap «end» ((if p.start = 0 then pos+gap else p.start)+p.size) rest

instance decidable_fits (gap «end» : ℕ) : ∀ (pos : ℕ) (p : List Partition), Decidable (Fits gap «end» pos p)
  | pos, [] => inferInstanceAs (Decidable (pos ≤ «end»))
  | pos, p :: rest =>
    @instDecidableAnd (p.start ≠ 0 → pos+gap ≤ p.start) _ inferInstance (decidable_fits gap «end» _ rest)

/-- From `pos` on the partitions lie one behind the other, with a gap in front of each at least. -/
def Placed (gap «end» : ℕ) : ℕ → List Partition → Prop
  | pos, [] => pos ≤ «end»
  | pos, p :: rest => pos+gap ≤ p.start ∧ Placed gap «end» (p.start+p.size) rest

def open_sizes (p : List Partition) : ℕ := p.countP fun q => q.size = 0

section layout
variable {gap «end» : ℕ}

variable {p : List Partition} {pos : ℕ}

theorem fits_le (fits : Fits gap «end» pos p) : pos ≤ «end» := by
  induction p generalizing pos with
  | nil => exact fits
  | cons q rest ih =>
    obtain ⟨start,later⟩ := fits
    have behind := ih later
    by_cases automatic : q.start = 0
    · rw [if_pos automatic] at behind
      omega
    · rw [if_neg automatic] at behind
      omega

theorem room_behind_spec (small : «end» < 2^32) {pos allocated : ℕ} (fits : Fits gap «end» pos p)
    (counted : allocated+(«end»-pos) < 2^64) :
    ∃ e a, room_behind gap «end» p allocated = (e,allocated+a) ∧ pos+a ≤ e ∧ e ≤ «end» ∧
      ∀ pos', pos'+a ≤ e → Fits gap «end» pos' p := by
  induction p generalizing pos allocated with
  | nil => exact ⟨«end»,0,rfl,fits,le_rfl,fun pos' fits => fits⟩
  | cons q rest ih =>
    obtain ⟨start,later⟩ := fits
    have behind := fits_le later
    by_cases automatic : q.start = 0
    · rw [if_pos automatic] at later behind
      have sum : (allocated+q.size+gap)%2^64 = allocated+q.size+gap := Nat.mod_eq_of_lt (by omega)
      obtain ⟨e,a,room,inside,last,others⟩ := ih later (show allocated+q.size+gap+(«end»-(pos+gap+q.size)) < 2^64 by omega)
      refine ⟨e,q.size+gap+a,?_,by omega,last,fun pos' fits => ⟨fun own => absurd automatic own,?_⟩⟩
      · rw [room_behind,if_neg (not_not.mpr automatic),sum,room]
        simp only [add_assoc]
      · rw [if_pos automatic]
        exact others _ (by omega)
    · rw [if_neg automatic] at later behind
      have shifted : (q.start+(2^64-gap))%2^64 = q.start-gap := by omega
      refine ⟨q.start-gap,0,?_,by omega,by omega,fun pos' fits => ⟨fun _ => by omega,?_⟩⟩
      · rw [room_behind,if_pos automatic,shifted,add_zero]
      · rw [if_neg automatic]
        exact later

theorem layout_cons (gap «end» pos : ℕ) (p : Partition) (rest : List Partition) :
    layout_loop gap «end» pos (p :: rest) =
      let start := if p.start = 0 then (pos+gap)%2^64 else p.start
      let room := room_behind gap «end» rest 0
      let size := if p.size = 0 then (room.1+(2^64-room.2)+(2^64-start))%2^64 else p.size
      { p with start, size } :: layout_loop gap «end» ((start+size)%2^64) rest := rfl

/-- Partitions that fit are laid out one behind the other. -/
theorem layout_placed (small : «end» < 2^32) (fits : Fits gap «end» pos p)
    (one : open_sizes p ≤ 1) : Placed gap «end» pos (layout_loop gap «end» pos p) := by
  induction p generalizing pos with
  | nil => exact fits
  | cons q rest ih =>
    obtain ⟨own,later⟩ := fits
    have behind := fits_le later
    have start : (if q.start = 0 then (pos+gap)%2^64 else q.start) = if q.start = 0 then pos+gap else q.start := by
      by_cases automatic : q.start = 0
      · rw [if_pos automatic] at behind
        rw [if_pos automatic,if_pos automatic,Nat.mod_eq_of_lt (by omega)]
      · rw [if_neg automatic,if_neg automatic]
    have from_pos : pos+gap ≤ if q.start = 0 then pos+gap else q.start := by
      by_cases automatic : q.start = 0
      · rw [if_pos automatic]
      · rw [if_neg automatic]
        exact own automatic
    rw [layout_cons,start]
    generalize (if q.start = 0 then pos+gap else q.start) = first at later behind from_pos
    by_cases open_size : q.size = 0
    · -- The partition takes what the others leave, and there is no second one that does.
      rw [open_size,add_zero] at later behind
      obtain ⟨e,a,room,inside,last,others⟩ := room_behind_spec small later (show 0+(«end»-first) < 2^64 by omega)
      rw [zero_add] at room
      have size : (e+(2^64-a)+(2^64-first))%2^64 = e-a-first := by omega
      have next : (first+(e-a-first))%2^64 = e-a := by omega
      have rest_closed : open_sizes rest ≤ 1 := by
        rw [open_sizes,countP_cons] at one
        rw [open_sizes]
        omega
      simp only [open_size,if_true,room,size,next]
      refine ⟨from_pos,?_⟩
      have same : first+(e-a-first) = e-a := by omega
      rw [same]
      exact ih (others (e-a) (by omega)) rest_closed
    · have rest_closed : open_sizes rest ≤ 1 := by
        rw [open_sizes,countP_cons] at one
        rw [open_sizes]
        omega
      simp only [open_size,if_false]
      refine ⟨from_pos,?_⟩
      rw [Nat.mod_eq_of_lt (by omega)]
      exact ih later rest_closed
end layout

/-- A partition that is laid out: type and boot flag stay, start and size where they were given. -/
structure Answers (asked laid : Partition) : Prop where
  sys_ind : laid.sys_ind = asked.sys_ind
  bootable : laid.bootable = asked.bootable
  start : asked.start ≠ 0 → laid.start = asked.start
  size : asked.size ≠ 0 → laid.size = asked.size

theorem layout_answers (gap «end» pos : ℕ) (p : List Partition) :
    Forall₂ Answers p (layout_loop gap «end» pos p) := by
  induction p generalizing pos with
  | nil => exact .nil
  | cons q rest ih =>
    rw [layout_cons]
    exact .cons ⟨rfl,rfl,fun given => if_neg given,fun given => if_neg given⟩ (ih _)

def Apart (p q : Partition) : Prop := p.start+p.size ≤ q.start ∨ q.start+q.size ≤ p.start

section placed
variable {gap «end» : ℕ}

theorem placed_le (placed : Placed gap «end» pos p) : pos ≤ «end» := by
  induction p generalizing pos with
  | nil => exact placed
  | cons q rest ih =>
    obtain ⟨from_pos,later⟩ := placed
    have behind := ih later
    omega

theorem placed_inside (placed : Placed gap «end» pos p) :
    ∀ q ∈ p, pos+gap ≤ q.start ∧ q.start+q.size ≤ «end» := by
  induction p generalizing pos with
  | nil => simp
  | cons q rest ih =>
    obtain ⟨from_pos,later⟩ := placed
    intro r member
    rcases mem_cons.mp member with rfl | behind
    · exact ⟨from_pos,placed_le later⟩
    · obtain ⟨low,high⟩ := ih later r behind
      exact ⟨by omega,high⟩

theorem placed_apart (placed : Placed gap «end» pos p) : p.Pairwise Apart := by
  induction p generalizing pos with
  | nil => exact .nil
  | cons q rest ih =>
    obtain ⟨-,later⟩ := placed
    refine .cons (fun r behind => ?_) (ih later)
    have inside := placed_inside later r behind
    exact .inl (by omega)

/-- The sectors of the tables in front of the logical partitions: the first sector of the
    extended partition and those behind the others. -/
def ebr_sectors : ℕ → List Partition → List ℕ
  | _, [] => []
  | ext_part_sect, p :: rest => ext_part_sect :: ebr_sectors (p.start+p.size) rest

theorem ebr_sectors_from (placed : Placed gap «end» pos p) :
    ∀ sector ∈ ebr_sectors pos p, pos ≤ sector := by
  induction p generalizing pos with
  | nil => simp [ebr_sectors]
  | cons q rest ih =>
    obtain ⟨from_pos,later⟩ := placed
    intro sector member
    rcases mem_cons.mp member with rfl | behind
    · exact le_rfl
    · have low := ih later sector behind
      omega

/-- With a gap no partition overlaps a table. -/
theorem ebr_sectors_apart (some_gap : 0 < gap) (placed : Placed gap «end» pos p) :
    ∀ q ∈ p, ∀ sector ∈ ebr_sectors pos p, ¬ (q.start ≤ sector ∧ sector < q.start+q.size) := by
  induction p generalizing pos with
  | nil => simp
  | cons q rest ih =>
    obtain ⟨from_pos,later⟩ := placed
    intro r member sector among
    rcases mem_cons.mp member with rfl | behind
    · rcases mem_cons.mp among with rfl | tables
      · omega
      · have low := ebr_sectors_from later sector tables
        omega
    · rcases mem_cons.mp among with rfl | tables
      · have inside := placed_inside later r behind
        omega
      · exact ih later r behind sector tables
end placed

end UBoot.PartDos
