import UBoot.PartDos

/-!
The tables that `write_mbr_partitions` writes, as `part_get_info_dos` reads them. An entry has
sixteen bytes of its own (`fill_entry`, `fill_apart`); the tables of the extended partition form
a chain in which a partition is relative to its table and the next table to the extended partition
(`ebr_spec`, `Chained`), and the search counts one partition in each (`find_logical`).
-/
namespace UBoot.PartDos
open UBoot.Memory UBoot.Words List Option Function

structure Entry (buffer : Sector) (pt relative size : ℕ) (type : UInt8) (bootable : Bool) : Prop where
  boot_ind : boot_ind buffer pt = if bootable then 0x80 else 0
  sys_ind : sys_ind buffer pt = type
  start_sect : start_sect buffer pt = relative
  nr_sects : nr_sects buffer pt = size

theorem entry_congr {buffer buffer' : Sector} {pt relative size : ℕ} {type : UInt8} {bootable : Bool}
    (entry : Entry buffer pt relative size type bootable) (same : ∀ a, pt ≤ a → a < pt+16 → buffer' a = buffer a) :
    Entry buffer' pt relative size type bootable := by
  refine ⟨?_,?_,?_,?_⟩
  · exact (same pt (by omega) (by omega)).trans entry.boot_ind
  · exact (same (pt+4) (by omega) (by omega)).trans entry.sys_ind
  · exact (word_congr fun i inside => same (pt+8+i) (by omega) (by omega)).trans entry.start_sect
  · exact (word_congr fun i inside => same (pt+12+i) (by omega) (by omega)).trans entry.nr_sects

section fill
variable (buffer : Sector) (pt start : ℕ) {relative size : ℕ} (type : UInt8) (bootable : Bool)

theorem fill_apart {a : ℕ} (apart : a < pt ∨ pt+16 ≤ a) :
    mbr_fill_pt_entry buffer pt start relative size type bootable a = buffer a := by
  rw [mbr_fill_pt_entry]
  rcases apart with below | above
  · exact store_below _ _ below
  · exact store_above _ _ (by simpa [le32] using above)

theorem fill_entry (small : relative < 2^32) (small' : size < 2^32) :
    Entry (mbr_fill_pt_entry buffer pt start relative size type bootable) pt relative size type bootable := by
  rw [mbr_fill_pt_entry]
  generalize lba_to_chs start = first
  generalize lba_to_chs ((start+size+(2^64-1))%2^64) = last
  rw [store_append,store_append]
  simp only [length_cons,length_nil]
  set heads : Sector := store buffer pt
    [if bootable then 0x80 else 0,first.2.1,first.2.2,first.1,type,last.2.1,last.2.2,last.1] with headsAre
  have length : ∀ w, (le32 w).length = 4 := fun _ => rfl
  have apart : ∀ a, a < pt+8 →
      store (store heads (pt+(0+1+1+1+1+1+1+1+1)) (le32 relative)) (pt+(0+1+1+1+1+1+1+1+1)+(le32 relative).length) (le32 size) a =
        heads a := by
    intro a before
    rw [length,store_below _ _ (by omega),store_below _ _ (by omega)]
  refine ⟨?_,?_,?_,?_⟩
  · rw [boot_ind,apart pt (by omega),headsAre,← add_zero pt]
    exact store_inside buffer rfl
  · rw [sys_ind,apart (pt+4) (by omega),headsAre]
    exact store_inside buffer rfl
  · rw [start_sect,length,word_store_apart _ (.inl (by omega))]
    exact word_store small heads (pt+8)
  · rw [nr_sects,length]
    exact word_store small' _ (pt+12)
end fill

theorem blank_before {a : ℕ} (before : a < DOS_PART_MAGIC_OFFSET) : blank a = 0 := store_below _ _ before

theorem blank_magic : magic blank = true := by
  have first : blank DOS_PART_MAGIC_OFFSET = 0x55 := store_inside (i := 0) _ rfl
  have second : blank (DOS_PART_MAGIC_OFFSET+1) = 0xaa := store_inside _ rfl
  rw [magic,first,second]
  rfl

theorem magic_congr {buffer buffer' : Sector} (same : ∀ a, DOS_PART_MAGIC_OFFSET ≤ a → buffer' a = buffer a) :
    magic buffer' = magic buffer := by
  rw [magic,magic,same _ le_rfl,same _ (Nat.le_succ _)]

def offsets : ℕ → ℕ → List ℕ
  | _, 0 => []
  | pt, n+1 => pt :: offsets (pt+16) n

theorem slots_offsets : slots = offsets DOS_PART_TBL_OFFSET 4 := rfl

/-- The partitions have entries one behind the other, with starts from the begin of the disk. -/
def Entries (buffer : Sector) (pt : ℕ) (p : List Partition) : Prop :=
  ∀ i q, p[i]? = some q → Entry buffer (pt+16*i) q.start q.size q.sys_ind (q.bootable ≠ 0)

theorem entries_tail {buffer : Sector} {pt : ℕ} {q : Partition} {rest : List Partition}
    (entries : Entries buffer pt (q :: rest)) : Entries buffer (pt+16) rest := by
  intro i r found
  have here := entries (i+1) r found
  rwa [show pt+16*(i+1) = pt+16+16*i by ring] at here

theorem fill_primary_spec {pt : ℕ} {p : List Partition} (small : ∀ q ∈ p, q.start < 2^32 ∧ q.size < 2^32)
    (buffer : Sector) (ext_part_start : ℕ) :
    Entries (fill_primary pt p buffer ext_part_start).1 pt p ∧
    (∀ a, a < pt ∨ pt+16*p.length ≤ a → (fill_primary pt p buffer ext_part_start).1 a = buffer a) ∧
    (fill_primary pt p buffer ext_part_start).2 =
      ((p.filter fun q => is_extended q.sys_ind).getLast?).elim ext_part_start Partition.start := by
  induction p generalizing pt buffer ext_part_start with
  | nil => exact ⟨fun i q found => by simp at found,fun _ _ => rfl,rfl⟩
  | cons q rest ih =>
    obtain ⟨start,size⟩ := small q mem_cons_self
    have here := fill_entry buffer pt q.start q.sys_ind (q.bootable ≠ 0) start size
    have apart : ∀ a, a < pt ∨ pt+16 ≤ a →
        mbr_fill_pt_entry buffer pt q.start q.start q.size q.sys_ind (q.bootable ≠ 0) a = buffer a :=
      fun a outside => fill_apart buffer pt q.start q.sys_ind (q.bootable ≠ 0) outside
    rw [fill_primary]
    generalize mbr_fill_pt_entry buffer pt q.start q.start q.size q.sys_ind (q.bootable ≠ 0) = next at here apart
    obtain ⟨entries,same,ext⟩ := @ih (pt+16) (fun r member => small r (mem_cons_of_mem _ member)) next
      (if is_extended q.sys_ind then q.start else ext_part_start)
    refine ⟨?_,?_,?_⟩
    · intro i r found
      cases i with
      | zero =>
        obtain rfl : q = r := by simpa using found
        exact entry_congr here (fun a _ high => same a (.inl (by omega)))
      | succ i =>
        have later := entries i r (by simpa using found)
        rwa [show pt+16+16*i = pt+16*(i+1) by ring] at later
    · intro a outside
      rw [length_cons] at outside
      rw [same a (by omega),apart a (by omega)]
    · rw [ext,filter_cons]
      by_cases extended : is_extended q.sys_ind = true
      · rw [if_pos extended,if_pos extended,getLast?_cons]
        cases (rest.filter fun q => is_extended q.sys_ind).getLast? with
        | none => rfl
        | some r => rfl
      · rw [if_neg extended,if_neg extended]

section search
variable {buffer : Sector}

theorem boot_valid {pt relative size : ℕ} {type : UInt8} {bootable : Bool}
    (entry : Entry buffer pt relative size type bootable) : boot_ind buffer pt &&& 0x7f = 0 := by
  rw [entry.boot_ind]
  cases bootable with
  | true => rfl
  | false => rfl

theorem find_primary {n pt m i : ℕ} {p : List Partition} (entries : Entries buffer pt p) {q : Partition}
    (found : p[i]? = some q) (typed : q.sys_ind ≠ 0) (inside : i < m) :
    find_part buffer 0 (n+i) (offsets pt m) n = (n+i,some (pt+16*i)) := by
  induction i generalizing n pt m p with
  | zero =>
    obtain ⟨m,rfl⟩ : ∃ k, m = k+1 := ⟨m-1,by omega⟩
    have entry := entries 0 q found
    rw [mul_zero,add_zero] at entry
    rw [offsets,find_part,if_pos ⟨boot_valid entry,by rw [entry.sys_ind]; exact typed,rfl,.inl rfl⟩]
    rfl
  | succ i ih =>
    obtain ⟨m,rfl⟩ : ∃ k, m = k+1 := ⟨m-1,by omega⟩
    have other : ¬ n = n+(i+1) := by omega
    have later : ∃ r rest, p = r :: rest := by
      cases p with
      | nil => simp at found
      | cons r rest => exact ⟨r,rest,rfl⟩
    obtain ⟨r,rest,rfl⟩ := later
    have next := ih (n := n+1) (entries_tail entries) (by simpa using found) (show i < m by omega)
    rw [offsets,find_part,if_neg (fun both => other both.2.2.1),if_pos (.inl rfl),show n+(i+1) = n+1+i by ring,next,
      show pt+16*(i+1) = pt+16+16*i by ring]

theorem find_behind {n m which_part : ℕ} (pt : ℕ) (behind : n+m ≤ which_part) :
    find_part buffer 0 which_part (offsets pt m) n = (n+m,none) := by
  induction m generalizing n pt with
  | zero => rfl
  | succ m ih =>
    have other : ¬ n = which_part := by omega
    rw [offsets,find_part,if_neg (fun both => other both.2.2.1),if_pos (.inl rfl),ih (pt+16) (by omega),
      show n+1+m = n+(m+1) by ring]

theorem find_extended {pt : ℕ} {p : List Partition} (entries : Entries buffer pt p) {e : Partition}
    (first : p.find? (fun q => is_extended q.sys_ind) = some e) :
    ∃ ext, (offsets pt p.length).find? (fun pt => is_extended (sys_ind buffer pt)) = some ext ∧
      start_sect buffer ext = e.start := by
  induction p generalizing pt with
  | nil => cases first
  | cons q rest ih =>
    have entry := entries 0 q rfl
    rw [mul_zero,add_zero] at entry
    rw [length_cons,offsets,find?_cons,entry.sys_ind]
    rw [find?_cons] at first
    cases extended : is_extended q.sys_ind with
    | true =>
      rw [extended] at first
      obtain rfl := Option.some.inj first
      exact ⟨pt,rfl,entry.start_sect⟩
    | false =>
      rw [extended] at first
      exact ih (entries_tail entries) first
end search

/-- What a logical partition and the table in front of it are to be. -/
structure Logical (ext_part_start ext_part_sect : ℕ) (p : Partition) : Prop where
  behind : ext_part_start ≤ ext_part_sect ∧ ext_part_sect ≤ p.start
  small : p.start+p.size < 2^32
  typed : p.sys_ind ≠ 0
  plain : is_extended p.sys_ind = false

section ebr
variable {ext_part_start ext_part_sect : ℕ} {p : Partition} (logical : Logical ext_part_start ext_part_sect p)
  {rest : List Partition}
include logical

theorem ebr_spec (later : ∀ next ∈ rest.head?, p.start+p.size ≤ next.start+next.size ∧ next.start+next.size < 2^32) :
    Entry (ebr ext_part_start ext_part_sect p rest) DOS_PART_TBL_OFFSET (p.start-ext_part_sect) p.size p.sys_ind
      (p.bootable ≠ 0) ∧
    (rest ≠ [] → sys_ind (ebr ext_part_start ext_part_sect p rest) (DOS_PART_TBL_OFFSET+16) = DOS_PART_TYPE_EXTENDED ∧
      start_sect (ebr ext_part_start ext_part_sect p rest) (DOS_PART_TBL_OFFSET+16) = p.start+p.size-ext_part_start) ∧
    (rest = [] → sys_ind (ebr ext_part_start ext_part_sect p rest) (DOS_PART_TBL_OFFSET+16) = 0) ∧
    sys_ind (ebr ext_part_start ext_part_sect p rest) (DOS_PART_TBL_OFFSET+32) = 0 ∧
    sys_ind (ebr ext_part_start ext_part_sect p rest) (DOS_PART_TBL_OFFSET+48) = 0 ∧
    magic (ebr ext_part_start ext_part_sect p rest) = true := by
  set tbl := DOS_PART_TBL_OFFSET
  obtain ⟨behind,before⟩ := logical.behind
  have small := logical.small
  have relative : (p.start+(2^64-ext_part_sect))%2^64 = p.start-ext_part_sect := by omega
  have next_ebr : (p.start+p.size)%2^64 = p.start+p.size := by omega
  have entry := fill_entry blank tbl p.start p.sys_ind (p.bootable ≠ 0)
    (show p.start-ext_part_sect < 2^32 by omega) (show p.size < 2^32 by omega)
  have apart : ∀ a, a < tbl ∨ tbl+16 ≤ a →
      mbr_fill_pt_entry blank tbl p.start (p.start-ext_part_sect) p.size p.sys_ind (p.bootable ≠ 0) a =
        blank a := fun a outside => fill_apart blank tbl p.start p.sys_ind (p.bootable ≠ 0) outside
  have zero : ∀ a, tbl+16 ≤ a → a < DOS_PART_MAGIC_OFFSET →
      mbr_fill_pt_entry blank tbl p.start (p.start-ext_part_sect) p.size p.sys_ind (p.bootable ≠ 0) a = 0 :=
    fun a low high => (apart a (.inr low)).trans (blank_before high)
  have signed : ∀ buffer : Sector, (∀ a, DOS_PART_MAGIC_OFFSET ≤ a → buffer a = blank a) → magic buffer = true :=
    fun buffer same => (magic_congr same).trans blank_magic
  rw [ebr,relative]
  generalize mbr_fill_pt_entry blank tbl p.start (p.start-ext_part_sect) p.size p.sys_ind (p.bootable ≠ 0) =
    buffer at entry apart zero
  have offsets_are : tbl = 446 ∧ DOS_PART_MAGIC_OFFSET = 510 := ⟨rfl,rfl⟩
  cases rest with
  | nil =>
    refine ⟨entry,fun some_rest => absurd rfl some_rest,fun _ => ?_,?_,?_,?_⟩
    · exact zero _ (by omega) (by omega)
    · exact zero _ (by omega) (by omega)
    · exact zero _ (by omega) (by omega)
    · exact signed buffer (fun a high => apart a (.inr (by omega)))
  | cons next rest =>
    obtain ⟨order,fits⟩ := later next rfl
    simp only [head?_cons,elim_some,next_ebr]
    have place : (p.start+p.size+(2^64-ext_part_start))%2^64 = p.start+p.size-ext_part_start := by omega
    have size : (next.start+next.size+(2^64-(p.start+p.size)))%2^64 = next.start+next.size-(p.start+p.size) := by omega
    rw [place,size]
    have link := fill_entry buffer (tbl+16) (p.start+p.size) DOS_PART_TYPE_EXTENDED false
      (show p.start+p.size-ext_part_start < 2^32 by omega) (show next.start+next.size-(p.start+p.size) < 2^32 by omega)
    have beside : ∀ a, a < tbl+16 ∨ tbl+32 ≤ a →
        mbr_fill_pt_entry buffer (tbl+16) (p.start+p.size) (p.start+p.size-ext_part_start)
          (next.start+next.size-(p.start+p.size)) DOS_PART_TYPE_EXTENDED false a = buffer a :=
      fun a outside => fill_apart buffer (tbl+16) (p.start+p.size) DOS_PART_TYPE_EXTENDED false outside
    generalize mbr_fill_pt_entry buffer (tbl+16) (p.start+p.size) (p.start+p.size-ext_part_start)
      (next.start+next.size-(p.start+p.size)) DOS_PART_TYPE_EXTENDED false = table at link beside
    refine ⟨entry_congr entry (fun a _ high => beside a (.inl (by omega))),fun _ => ⟨link.sys_ind,link.start_sect⟩,
      fun none_left => absurd none_left (cons_ne_nil _ _),?_,?_,?_⟩
    · exact (beside _ (.inr (by omega))).trans (zero _ (by omega) (by omega))
    · exact (beside _ (.inr (by omega))).trans (zero _ (by omega) (by omega))
    · exact signed table (fun a high => (beside a (.inr (by omega))).trans (apart a (.inr (by omega))))
end ebr

def Chained (disk : Disk) (ext_part_start : ℕ) : ℕ → List Partition → Prop
  | _, [] => True
  | ext_part_sect, p :: rest => disk ext_part_sect = ebr ext_part_start ext_part_sect p rest ∧
      Chained disk ext_part_start (p.start+p.size) rest

theorem write_ebrs_spec {dev : Device} {gap «end» ext_part_start : ℕ} (some_gap : 0 < gap) (small : «end» < 2^32) {sector : ℕ}
    {p : List Partition} (placed : Placed gap «end» sector p) {disk disk' : Disk}
    (written : write_ebrs dev ext_part_start sector p disk = some disk') :
    Chained disk' ext_part_start sector p ∧ ∀ other, other ∉ ebr_sectors sector p → disk' other = disk other := by
  induction p generalizing sector disk with
  | nil =>
    obtain rfl := Option.some.inj written
    exact ⟨trivial,fun _ _ => rfl⟩
  | cons q rest ih =>
    obtain ⟨from_pos,later⟩ := placed
    have behind := placed_le later
    rw [write_ebrs,Nat.mod_eq_of_lt (show q.start+q.size < 2^64 by omega)] at written
    obtain ⟨mid,wrote,goes_on⟩ := bind_eq_some_iff.mp written
    rw [blk_dwrite] at wrote
    split_ifs at wrote
    obtain rfl := Option.some.inj wrote
    obtain ⟨chained,same⟩ := ih later goes_on
    have apart : sector ∉ ebr_sectors (q.start+q.size) rest := by
      intro member
      have low := ebr_sectors_from later sector member
      omega
    refine ⟨⟨?_,chained⟩,fun other outside => ?_⟩
    · rw [same sector apart,update_self]
    · obtain ⟨not_here,not_later⟩ := not_or.mp (fun either => outside (mem_cons.mpr either))
      rw [same other not_later,update_of_ne not_here]

def partition_info (dev : Device) (p : Partition) : Info where
  start := p.start
  size := p.size
  blksz := info_blksz dev
  sys_ind := p.sys_ind
  bootable := (if p.sys_ind = 0xef then PART_EFI_SYSTEM_PARTITION else 0) ||| (if p.bootable ≠ 0 then PART_BOOTABLE else 0)

theorem entry_info_eq (dev : Device) {buffer : Sector} {sector pt : ℕ} {p : Partition}
    (entry : Entry buffer pt (p.start-sector) p.size p.sys_ind (p.bootable ≠ 0)) (behind : sector ≤ p.start)
    (small : p.start < 2^32) : entry_info dev buffer sector pt = partition_info dev p := by
  have start : (sector+(p.start-sector))%2^64 = p.start := by omega
  have flag : get_bootable buffer pt = (if p.sys_ind = 0xef then PART_EFI_SYSTEM_PARTITION else 0) |||
      (if p.bootable ≠ 0 then PART_BOOTABLE else 0) := by
    rw [get_bootable,entry.sys_ind,entry.boot_ind]
    by_cases bootable : p.bootable = 0
    · simp [bootable]
    · simp [bootable]
  rw [entry_info,entry.start_sect,entry.nr_sects,entry.sys_ind,flag,start]
  rfl

theorem find_logical {buffer : Sector} {sector relative size : ℕ} {type : UInt8} {bootable : Bool} (beyond : sector ≠ 0)
    (entry : Entry buffer DOS_PART_TBL_OFFSET relative size type bootable) (typed : type ≠ 0)
    (plain : is_extended type = false)
    (link : sys_ind buffer (DOS_PART_TBL_OFFSET+16) = 0 ∨ is_extended (sys_ind buffer (DOS_PART_TBL_OFFSET+16)) = true)
    (third : sys_ind buffer (DOS_PART_TBL_OFFSET+32) = 0) (fourth : sys_ind buffer (DOS_PART_TBL_OFFSET+48) = 0)
    (n which_part : ℕ) :
    find_part buffer sector which_part slots n =
      if n = which_part then (n,some DOS_PART_TBL_OFFSET) else (n+1,none) := by
  have valid := boot_valid entry
  rw [slots,find_part,entry.sys_ind]
  by_cases here : n = which_part
  · rw [if_pos ⟨valid,typed,here,.inr plain⟩,if_pos here]
  rw [if_neg (fun both => here both.2.2.1),if_pos (.inr ⟨typed,plain⟩),if_neg here]
  have no_partition : ∀ pt, sys_ind buffer pt = 0 ∨ is_extended (sys_ind buffer pt) = true → ∀ pts m,
      find_part buffer sector which_part (pt :: pts) m = find_part buffer sector which_part pts m := by
    intro pt absent pts m
    rw [find_part,if_neg,if_neg]
    · rintro (zero | ⟨some_type,logical⟩)
      · exact beyond zero
      · rcases absent with none_there | extended
        · exact some_type none_there
        · rw [extended] at logical
          cases logical
    · rintro ⟨-,some_type,-,zero | logical⟩
      · exact beyond zero
      · rcases absent with none_there | extended
        · exact some_type none_there
        · rw [extended] at logical
          cases logical
  rw [no_partition _ link,no_partition _ (.inl third),no_partition _ (.inl fourth)]
  rfl

section read
variable (dev : Device) {disk : Disk} (info : Info)

theorem read_found {tables sector relative part_num which_part n pt : ℕ} (numbered : part_num ≤ MAX_EXT_PARTS)
    (signed : magic (disk sector) = true)
    (found : find_part (disk sector) sector which_part slots part_num = (n,some pt)) :
    part_get_info_extended dev disk info (tables+1) sector relative part_num which_part =
      some (some (entry_info dev (disk sector) sector pt)) := by
  have goes_on : ¬ (MAX_EXT_PARTS < part_num ∨ ¬ magic (disk sector) = true) := by
    rintro (high | unsigned)
    · omega
    · exact unsigned signed
  rw [part_get_info_extended]
  simp only [goes_on,if_false,found]

theorem read_next {tables sector relative part_num which_part n pt : ℕ} (numbered : part_num ≤ MAX_EXT_PARTS)
    (signed : magic (disk sector) = true)
    (absent : find_part (disk sector) sector which_part slots part_num = (n,none))
    (link : slots.find? (fun pt => is_extended (sys_ind (disk sector) pt)) = some pt) :
    part_get_info_extended dev disk info (tables+1) sector relative part_num which_part =
      part_get_info_extended dev disk info tables ((start_sect (disk sector) pt+relative)%2^64)
        (if sector = 0 then (start_sect (disk sector) pt+relative)%2^64 else relative) n which_part := by
  have goes_on : ¬ (MAX_EXT_PARTS < part_num ∨ ¬ magic (disk sector) = true) := by
    rintro (high | unsigned)
    · omega
    · exact unsigned signed
  rw [part_get_info_extended]
  simp only [goes_on,if_false,absent,link]

theorem read_logical {gap «end» ext_part_start : ℕ} (small : «end» < 2^32) (some_start : 0 < ext_part_start) {sector n k : ℕ}
    {p : List Partition} (placed : Placed gap «end» sector p) (behind : ext_part_start ≤ sector)
    (chained : Chained disk ext_part_start sector p) (types : ∀ q ∈ p, q.sys_ind ≠ 0 ∧ is_extended q.sys_ind = false)
    {q : Partition} (found : p[k]? = some q) (numbered : n+k ≤ MAX_EXT_PARTS) {tables : ℕ} (enough : k < tables) :
    part_get_info_extended dev disk info tables sector ext_part_start n (n+k) = some (some (partition_info dev q)) := by
  induction p generalizing sector n k tables with
  | nil => simp at found
  | cons r rest ih =>
    obtain ⟨from_pos,later⟩ := placed
    obtain ⟨here,chain⟩ := chained
    have fits := placed_le later
    obtain ⟨typed,plain⟩ := types r mem_cons_self
    have order : ∀ next ∈ rest.head?, r.start+r.size ≤ next.start+next.size ∧ next.start+next.size < 2^32 := by
      intro next first
      have inside := placed_inside later next (mem_of_mem_head? first)
      omega
    obtain ⟨entry,link,last,third,fourth,signed⟩ :=
      ebr_spec (Logical.mk ⟨behind,by omega⟩ (by omega) typed plain) order
    rw [← here] at entry link last third fourth signed
    have second : sys_ind (disk sector) (DOS_PART_TBL_OFFSET+16) = 0 ∨
        is_extended (sys_ind (disk sector) (DOS_PART_TBL_OFFSET+16)) = true := by
      by_cases none_left : rest = []
      · exact .inl (last none_left)
      · right
        rw [(link none_left).1]
        rfl
    have beyond : sector ≠ 0 := by omega
    have search := find_logical beyond entry typed plain second third fourth n (n+k)
    obtain ⟨tables,rfl⟩ : ∃ t, tables = t+1 := ⟨tables-1,by omega⟩
    cases k with
    | zero =>
      obtain rfl : r = q := by simpa using found
      rw [if_pos (add_zero n).symm] at search
      rw [read_found dev info (by omega) signed search,entry_info_eq dev entry (by omega) (by omega)]
    | succ k =>
      have more : rest ≠ [] := by
        rintro rfl
        simp at found
      obtain ⟨extended,place⟩ := link more
      have followed : slots.find? (fun pt => is_extended (sys_ind (disk sector) pt)) = some (DOS_PART_TBL_OFFSET+16) := by
        rw [slots,find?_cons_of_neg (by rw [entry.sys_ind,plain]; exact Bool.false_ne_true),
          find?_cons_of_pos (by rw [extended]; rfl)]
      have next : (start_sect (disk sector) (DOS_PART_TBL_OFFSET+16)+ext_part_start)%2^64 = r.start+r.size := by
        rw [place]
        omega
      rw [if_neg (show ¬ n = n+(k+1) by omega)] at search
      rw [read_next dev info (by omega) signed search followed,next,if_neg beyond,show n+(k+1) = n+1+k by ring]
      exact ih later (by omega) chain (fun p member => types p (mem_cons_of_mem _ member)) (by simpa using found)
        (by omega) (by omega)
end read

structure Asked (p : List Partition) : Prop where
  some_parts : p ≠ []
  few : p.length ≤ MAX_EXT_PARTS
  typed : ∀ q ∈ p, q.sys_ind ≠ 0
  primary : ∀ q ∈ p.take 4, is_extended q.sys_ind = true → q.sys_ind = DOS_PART_TYPE_EXTENDED
  logical : ∀ q ∈ p.drop 4, is_extended q.sys_ind = false
  at_most_one : ((p.take 4).countP fun q => is_extended q.sys_ind) ≤ 1
  needed : 4 < p.length → ((p.take 4).countP fun q => is_extended q.sys_ind) = 1
  open_primary : open_sizes (p.take 4) ≤ 1
  open_logical : open_sizes (p.drop 4) ≤ 1

def first_start (p : List Partition) : ℕ :=
  p.head?.elim DOS_PART_DEFAULT_GAP fun q => if q.start = 0 then DOS_PART_DEFAULT_GAP else q.start

/-- The primary partitions fit the disk, the logical ones the extended partition that it then
    has. -/
structure Roomy (p : List Partition) (total_sectors : ℕ) : Prop where
  primary : Fits 0 total_sectors (first_start p) (p.take 4)
  logical : ∀ ext ∈ layout_loop 0 total_sectors DOS_PART_DEFAULT_GAP (p.take 4), is_extended ext.sys_ind = true →
    Fits DOS_PART_DEFAULT_GAP (ext.start+ext.size) ext.start (p.drop 4)

structure Laid (p : List Partition) (total_sectors : ℕ) : Prop where
  primary_inside : ∀ q ∈ p.take 4, 0 < q.start ∧ q.start+q.size ≤ total_sectors
  primary_apart : (p.take 4).Pairwise Apart
  logical_inside : ∀ ext ∈ p.take 4, is_extended ext.sys_ind = true →
    ∀ q ∈ p.drop 4, ext.start ≤ q.start ∧ q.start+q.size ≤ ext.start+ext.size
  logical_apart : (p.drop 4).Pairwise Apart
  no_table : ∀ ext ∈ p.take 4, is_extended ext.sys_ind = true →
    ∀ q ∈ p.drop 4, ∀ sector ∈ ebr_sectors ext.start (p.drop 4), ¬ (q.start ≤ sector ∧ sector < q.start+q.size)

theorem layout_first (total_sectors : ℕ) (p : List Partition) :
    layout_loop 0 total_sectors DOS_PART_DEFAULT_GAP (p.take 4) =
      layout_loop 0 total_sectors (first_start p) (p.take 4) := by
  cases p with
  | nil => rfl
  | cons q rest =>
    rw [take_succ_cons,layout_cons,layout_cons]
    simp only [first_start,head?_cons,elim_some]
    by_cases automatic : q.start = 0
    · simp only [automatic,if_true]
    · simp only [automatic,if_false]

theorem first_start_pos (p : List Partition) : 0 < first_start p := by
  rw [first_start]
  cases p with
  | nil => exact Nat.succ_pos _
  | cons q rest =>
    simp only [head?_cons,elim_some]
    split_ifs with automatic
    · exact Nat.succ_pos _
    · omega

/-- What the layout is when it succeeds: the primary partitions, and the logical ones in the only
    extended partition. -/
structure Layout (p p' : List Partition) (total_sectors : ℕ) : Prop where
  primary : p'.take 4 = layout_loop 0 total_sectors DOS_PART_DEFAULT_GAP (p.take 4)
  short : p.length ≤ 4 → p'.drop 4 = []
  long : 4 < p.length → ∃ ext, ((p'.take 4).filter fun q => is_extended q.sys_ind) = [ext] ∧
    p'.drop 4 = layout_loop DOS_PART_DEFAULT_GAP ((ext.start+ext.size)%2^64) ext.start (p.drop 4)

theorem answers_count {p p' : List Partition} (answers : Forall₂ Answers p p') (f : UInt8 → Bool) :
    p'.countP (fun q => f q.sys_ind) = p.countP (fun q => f q.sys_ind) := by
  induction answers with
  | nil => rfl
  | cons answer _ ih => rw [countP_cons,countP_cons,ih,answer.sys_ind]

theorem answers_all {p p' : List Partition} (answers : Forall₂ Answers p p') {property : UInt8 → Prop}
    (all : ∀ q ∈ p, property q.sys_ind) : ∀ q ∈ p', property q.sys_ind := by
  induction answers with
  | nil => simp
  | cons answer _ ih =>
    intro q member
    rcases mem_cons.mp member with rfl | later
    · rw [answer.sys_ind]
      exact all _ mem_cons_self
    · exact ih (fun r inside => all r (mem_cons_of_mem _ inside)) q later

theorem layout_spec {p : List Partition} (asked : Asked p) {total_sectors : ℕ} {p' : List Partition}
    (laid : layout_mbr_partitions p total_sectors = some p') : Layout p p' total_sectors := by
  have answers := layout_answers 0 total_sectors DOS_PART_DEFAULT_GAP (p.take 4)
  have length := answers.length_eq
  have count := answers_count answers is_extended
  have types := @answers_all _ _ answers (fun type => is_extended type = true → type = DOS_PART_TYPE_EXTENDED) asked.primary
  rw [layout_mbr_partitions] at laid
  generalize primaryIs : layout_loop 0 total_sectors DOS_PART_DEFAULT_GAP (p.take 4) = primary at laid length count types
  rw [length_take] at length
  by_cases short : p.length ≤ 4
  · rw [if_pos short] at laid
    obtain rfl := Option.some.inj laid
    refine ⟨(take_of_length_le (by omega)).trans primaryIs.symm,fun _ => drop_of_length_le (by omega),fun long => by omega⟩
  rw [if_neg short] at laid
  obtain ⟨ext,found,rfl⟩ := map_eq_some_iff.mp laid
  have four : primary.length = 4 := by omega
  refine ⟨(take_left' four).trans primaryIs.symm,fun no => absurd no short,fun long => ⟨ext,?_,drop_left' four⟩⟩
  rw [take_left' four]
  -- The only extended partition is the last one of type 5.
  rw [asked.needed long,countP_eq_length_filter] at count
  obtain ⟨only,single⟩ := length_eq_one_iff.mp count
  have same : (primary.filter fun q => q.sys_ind = DOS_PART_TYPE_EXTENDED) =
      primary.filter fun q => is_extended q.sys_ind := by
    refine filter_congr fun q member => ?_
    by_cases extended : is_extended q.sys_ind = true
    · rw [extended,types q member extended,decide_eq_true rfl]
    · have other : q.sys_ind ≠ DOS_PART_TYPE_EXTENDED := by
        intro is
        rw [is] at extended
        exact extended rfl
      rw [decide_eq_false other,Bool.not_eq_true _ |>.mp extended]
  rw [← head?_filter,filter_reverse,same,single] at found
  obtain rfl : only = ext := by simpa using found
  exact single

theorem layout_answered {p p' : List Partition} {total_sectors : ℕ} (layout : Layout p p' total_sectors) :
    Forall₂ Answers p p' := by
  have primary := layout_answers 0 total_sectors DOS_PART_DEFAULT_GAP (p.take 4)
  rw [← layout.primary] at primary
  have logical : Forall₂ Answers (p.drop 4) (p'.drop 4) := by
    by_cases short : p.length ≤ 4
    · rw [layout.short short,drop_of_length_le short]
      exact .nil
    · obtain ⟨ext,-,same⟩ := layout.long (by omega)
      rw [same]
      exact layout_answers _ _ _ _
  have both : Forall₂ Answers (p.take 4 ++ p.drop 4) (p'.take 4 ++ p'.drop 4) := rel_append primary logical
  rwa [take_append_drop,take_append_drop] at both

section whole
variable {p p' : List Partition} {total_sectors : ℕ}

theorem layout_all_placed (asked : Asked p) (small : total_sectors < 2^32) (roomy : Roomy p total_sectors)
    (layout : Layout p p' total_sectors) :
    Placed 0 total_sectors (first_start p) (p'.take 4) ∧
    ∀ ext ∈ p'.take 4, is_extended ext.sys_ind = true →
      Placed DOS_PART_DEFAULT_GAP (ext.start+ext.size) ext.start (p'.drop 4) := by
  have primary : Placed 0 total_sectors (first_start p) (p'.take 4) := by
    rw [layout.primary,layout_first]
    exact layout_placed small roomy.primary asked.open_primary
  refine ⟨primary,fun ext member extended => ?_⟩
  have inside := placed_inside primary ext member
  have fits := roomy.logical ext (layout.primary ▸ member) extended
  by_cases short : p.length ≤ 4
  · rw [layout.short short]
    exact Nat.le_add_right _ _
  · obtain ⟨only,single,same⟩ := layout.long (by omega)
    have among : ext ∈ (p'.take 4).filter fun q => is_extended q.sys_ind := mem_filter.mpr ⟨member,extended⟩
    rw [single] at among
    obtain rfl := mem_singleton.mp among
    rw [same,Nat.mod_eq_of_lt (by omega)]
    exact layout_placed (by omega) fits asked.open_logical

theorem laid_of_placed (primary : Placed 0 total_sectors (first_start p) (p'.take 4))
    (logical : ∀ ext ∈ p'.take 4, is_extended ext.sys_ind = true →
      Placed DOS_PART_DEFAULT_GAP (ext.start+ext.size) ext.start (p'.drop 4))
    (unextended : (∀ ext ∈ p'.take 4, is_extended ext.sys_ind = false) → p'.drop 4 = []) : Laid p' total_sectors := by
  have some_start := first_start_pos p
  refine ⟨fun q member => ?_,placed_apart primary,fun ext member extended q inside => ?_,?_,?_⟩
  · have inside := placed_inside primary q member
    omega
  · have placed := placed_inside (logical ext member extended) q inside
    omega
  · by_cases none_extended : ∀ ext ∈ p'.take 4, is_extended ext.sys_ind = false
    · rw [unextended none_extended]
      exact .nil
    · obtain ⟨ext,member,extended⟩ : ∃ ext ∈ p'.take 4, is_extended ext.sys_ind = true := by simpa using none_extended
      exact placed_apart (logical ext member extended)
  · intro ext member extended
    exact ebr_sectors_apart (Nat.succ_pos _) (logical ext member extended)
end whole

section written
variable {p p' : List Partition} {total_sectors : ℕ} {dev : Device} {disk disk' : Disk} {disksig : ℕ}

theorem single_extended {p : List Partition} {ext : Partition}
    (single : ((p.take 4).filter fun q => is_extended q.sys_ind) = [ext]) : ext ∈ p.take 4 ∧ is_extended ext.sys_ind = true := by
  have among : ext ∈ (p.take 4).filter fun q => is_extended q.sys_ind := by
    rw [single]
    exact mem_singleton.mpr rfl
  exact mem_filter.mp among

/-- Sector 0 as it is written, and the tables of the extended partition. -/
structure Written (p : List Partition) (disk disk' : Disk) : Prop where
  signed : magic (disk' 0) = true
  entries : Entries (disk' 0) DOS_PART_TBL_OFFSET (p.take 4)
  chained : ∀ ext, ((p.take 4).filter fun q => is_extended q.sys_ind) = [ext] →
    Chained disk' ext.start ext.start (p.drop 4)
  others : ∀ sector, disk' sector ≠ disk sector → sector = 0 ∨
    ∃ ext ∈ p.take 4, is_extended ext.sys_ind = true ∧ sector ∈ ebr_sectors ext.start (p.drop 4)

theorem write_spec (small : total_sectors < 2^32) {first : ℕ} (some_first : 0 < first)
    (primary : Placed 0 total_sectors first (p.take 4))
    (logical : ∀ ext ∈ p.take 4, is_extended ext.sys_ind = true →
      Placed DOS_PART_DEFAULT_GAP (ext.start+ext.size) ext.start (p.drop 4))
    (only : p.drop 4 = [] ∨ ∃ ext, ((p.take 4).filter fun q => is_extended q.sys_ind) = [ext])
    (written : write_mbr_partitions dev disk p disksig = some disk') : Written p disk disk' := by
  have inside := placed_inside primary
  have sizes : ∀ q ∈ p.take 4, q.start < 2^32 ∧ q.size < 2^32 := by
    intro q member
    have here := inside q member
    omega
  obtain ⟨entries,same,ext_start⟩ := @fill_primary_spec DOS_PART_TBL_OFFSET _ sizes
    (store blank DOS_PART_DISKSIG_OFFSET (le32 disksig)) 0
  have four : (p.take 4).length ≤ 4 := by
    rw [length_take]
    omega
  have signed : magic (fill_primary DOS_PART_TBL_OFFSET (p.take 4)
      (store blank DOS_PART_DISKSIG_OFFSET (le32 disksig)) 0).1 = true := by
    refine (magic_congr fun a high => ?_).trans blank_magic
    have offsets_are : DOS_PART_TBL_OFFSET = 446 ∧ DOS_PART_MAGIC_OFFSET = 510 ∧ DOS_PART_DISKSIG_OFFSET = 440 :=
      ⟨rfl,rfl,rfl⟩
    rw [same a (.inr (by omega))]
    exact store_above _ _ (by simp only [le32,length_cons,length_nil]; omega)
  rw [write_mbr_partitions] at written
  generalize fill_primary DOS_PART_TBL_OFFSET (p.take 4) (store blank DOS_PART_DISKSIG_OFFSET (le32 disksig)) 0 = filled
    at entries ext_start signed written
  split_ifs at written
  obtain ⟨mid,wrote,goes_on⟩ := bind_eq_some_iff.mp written
  rw [blk_dwrite] at wrote
  split_ifs at wrote
  obtain rfl := Option.some.inj wrote
  rcases only with none_left | ⟨ext,single⟩
  · rw [none_left] at goes_on
    obtain rfl := Option.some.inj goes_on
    refine ⟨by rwa [update_self],by rwa [update_self],fun ext _ => ?_,fun sector changed => ?_⟩
    · rw [none_left]
      trivial
    · by_contra other
      exact changed (update_of_ne (not_or.mp other).1 _ _)
  obtain ⟨member,extended⟩ := single_extended single
  rw [single] at ext_start
  have begins : filled.2 = ext.start := ext_start
  rw [begins] at goes_on
  have here := inside ext member
  obtain ⟨chained,kept⟩ := write_ebrs_spec (Nat.succ_pos _) (by omega) (logical ext member extended) goes_on
  -- No table of the chain is sector 0.
  have apart : 0 ∉ ebr_sectors ext.start (p.drop 4) := by
    intro zero
    have low := ebr_sectors_from (logical ext member extended) 0 zero
    omega
  have table : disk' 0 = filled.1 := by rw [kept 0 apart,update_self]
  refine ⟨by rwa [table],by rwa [table],fun e is => ?_,fun sector changed => ?_⟩
  · obtain rfl : ext = e := by
      rw [single] at is
      exact (List.cons.inj is).1
    exact chained
  · by_contra other
    obtain ⟨elsewhere,no_table⟩ := not_or.mp other
    refine changed ?_
    rw [kept sector (fun among => no_table ⟨ext,member,extended,among⟩),update_of_ne elsewhere]

theorem read_spec (small : total_sectors < 2^32) {first : ℕ} (some_first : 0 < first) (few : p.length ≤ MAX_EXT_PARTS)
    (typed : ∀ q ∈ p, q.sys_ind ≠ 0) (plain : ∀ q ∈ p.drop 4, is_extended q.sys_ind = false)
    (primary : Placed 0 total_sectors first (p.take 4))
    (logical : ∀ ext ∈ p.take 4, is_extended ext.sys_ind = true →
      Placed DOS_PART_DEFAULT_GAP (ext.start+ext.size) ext.start (p.drop 4))
    (only : p.drop 4 = [] ∨ ∃ ext, ((p.take 4).filter fun q => is_extended q.sys_ind) = [ext])
    (written : Written p disk disk') (info : Info) {i : ℕ} {q : Partition} (found : p[i]? = some q) {tables : ℕ}
    (enough : p.length ≤ tables) :
    part_get_info_dos dev disk' info tables (i+1) = some (some (partition_info dev q)) := by
  have inside := placed_inside primary
  have within : i < p.length := (List.getElem?_eq_some_iff.mp found).1
  obtain ⟨tables,rfl⟩ : ∃ t, tables = t+1 := ⟨tables-1,by omega⟩
  rw [part_get_info_dos]
  by_cases in_table : i < 4
  · have member : (p.take 4)[i]? = some q := by rw [getElem?_take_of_lt in_table,found]
    have entry := written.entries i q member
    have search := @find_primary (disk' 0) 1 _ 4 i _ written.entries q member (typed q (mem_of_getElem? found)) in_table
    have here := inside q (mem_of_getElem? member)
    rw [add_comm i 1,read_found dev info (by simp [MAX_EXT_PARTS]) written.signed search]
    rw [← Nat.sub_zero q.start] at entry
    rw [entry_info_eq dev entry (Nat.zero_le _) (by omega)]
  have more : p.drop 4 ≠ [] := by
    intro none_left
    have length := congrArg List.length none_left
    rw [length_drop,length_nil] at length
    omega
  obtain ⟨ext,single⟩ := only.resolve_left more
  obtain ⟨member,extended⟩ := single_extended single
  have here := inside ext member
  have four : (p.take 4).length = 4 := by
    rw [length_take]
    omega
  have first_extended : (p.take 4).find? (fun q => is_extended q.sys_ind) = some ext := by
    rw [← head?_filter,single]
    rfl
  obtain ⟨pt,followed,start⟩ := find_extended written.entries first_extended
  rw [four,← slots_offsets] at followed
  have search := @find_behind (disk' 0) 1 4 (i+1) DOS_PART_TBL_OFFSET (by omega)
  rw [← slots_offsets] at search
  have next : (ext.start+0)%2^64 = ext.start := by omega
  have later : (p.drop 4)[i-4]? = some q := by
    rw [getElem?_drop,show 4+(i-4) = i by omega,found]
  rw [read_next dev info (by simp [MAX_EXT_PARTS]) written.signed search followed,start,next,if_pos rfl,
    show i+1 = 1+4+(i-4) by omega]
  exact read_logical dev info (by omega) (by omega) (logical ext member extended) le_rfl (written.chained ext single)
    (fun r among => ⟨typed r (mem_of_mem_drop among),plain r among⟩) later (by omega) (by omega)
end written

/-- Partitions that are asked for as they may be and that fit are laid out apart from each other and
    from the tables, and read back as they were laid out. -/
theorem mbr_layout_read_back {p : List Partition} (asked : Asked p) {total_sectors : ℕ} (small : total_sectors < 2^32)
    (roomy : Roomy p total_sectors) {p' : List Partition} (laid : layout_mbr_partitions p total_sectors = some p')
    (dev : Device) {disk disk' : Disk} {disksig : ℕ} (written : write_mbr_partitions dev disk p' disksig = some disk') :
    List.Forall₂ Answers p p' ∧ Laid p' total_sectors ∧
    (∀ sector, disk' sector ≠ disk sector → sector = 0 ∨
      ∃ ext ∈ p'.take 4, is_extended ext.sys_ind = true ∧ sector ∈ ebr_sectors ext.start (p'.drop 4)) ∧
    ∀ (info : Info) (i : ℕ) (q : Partition), p'[i]? = some q → ∀ tables, p'.length ≤ tables →
      part_get_info_dos dev disk' info tables (i+1) = some (some (partition_info dev q)) := by
  have layout := layout_spec asked laid
  have answered := layout_answered layout
  have length := answered.length_eq
  obtain ⟨primary,logical⟩ := layout_all_placed asked small roomy layout
  have only : p'.drop 4 = [] ∨ ∃ ext, ((p'.take 4).filter fun q => is_extended q.sys_ind) = [ext] := by
    by_cases short : p.length ≤ 4
    · exact .inl (layout.short short)
    · obtain ⟨ext,single,-⟩ := layout.long (by omega)
      exact .inr ⟨ext,single⟩
  have unextended : (∀ ext ∈ p'.take 4, is_extended ext.sys_ind = false) → p'.drop 4 = [] := by
    intro none_extended
    refine only.resolve_right ?_
    rintro ⟨ext,single⟩
    obtain ⟨member,extended⟩ := single_extended single
    rw [none_extended ext member] at extended
    cases extended
  have typed := @answers_all _ _ answered (fun type => type ≠ 0) asked.typed
  have plain : ∀ q ∈ p'.drop 4, is_extended q.sys_ind = false := by
    have logical_answered : List.Forall₂ Answers (p.drop 4) (p'.drop 4) := List.forall₂_drop 4 answered
    exact @answers_all _ _ logical_answered (fun type => is_extended type = false) asked.logical
  have few : p'.length ≤ MAX_EXT_PARTS := length ▸ asked.few
  have result := write_spec small (first_start_pos p) primary logical only written
  refine ⟨answered,laid_of_placed primary logical unextended,result.others,fun info i q found tables enough => ?_⟩
  exact read_spec small (first_start_pos p) few typed plain primary logical only result info found enough

/-- A boot partition, an extended partition that takes what is left, and two more; in it one of
    given size and one that takes what is left. -/
def six_parts : List Partition :=
  [⟨0,100,0x0c,1⟩,⟨0,0,0x05,0⟩,⟨0,50,0x83,0⟩,⟨0,50,0xef,0⟩,⟨0,300,0x83,0⟩,⟨0,0,0x82,1⟩]

def plain_device : Device := ⟨20000,512,fun _ => true⟩

def six_laid : List Partition :=
  [⟨2048,100,0x0c,1⟩,⟨2148,17752,0x05,0⟩,⟨19900,50,0x83,0⟩,⟨19950,50,0xef,0⟩,⟨4196,300,0x83,0⟩,⟨6544,13356,0x82,1⟩]

theorem six_parts_read_back : ∃ disk', write_mbr_partitions plain_device (fun _ _ => 0) six_laid 0x12345678 = some disk' ∧
    part_get_info_dos plain_device disk' ⟨0,0,0,0,0⟩ 6 6 = some (some ⟨6544,13356,512,0x82,1⟩) := by
  have laid : layout_mbr_partitions six_parts 20000 = some six_laid := by decide
  have asked : Asked six_parts :=
    ⟨by decide,by decide,by decide,by decide,by decide,by decide,by decide,by decide,by decide⟩
  have roomy : Roomy six_parts 20000 := ⟨by decide,by decide⟩
  obtain ⟨disk',written⟩ : ∃ disk', write_mbr_partitions plain_device (fun _ _ => 0) six_laid 0x12345678 = some disk' :=
    Option.isSome_iff_exists.mp rfl
  have read_back := (mbr_layout_read_back asked (by omega) roomy laid plain_device written).2.2.2
  exact ⟨disk',written,read_back ⟨0,0,0,0,0⟩ 5 ⟨6544,13356,0x82,1⟩ rfl 6 (by decide)⟩

end UBoot.PartDos
