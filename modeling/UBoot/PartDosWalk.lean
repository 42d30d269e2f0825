import Mathlib.Logic.Relation
import UBoot.PartDos

/-!
The walks over extended partition tables, `print_partition_extended` and `part_get_info_extended`
of `disk/part_dos.c`, on any disk, with sectors that cannot be read and with the pointers that may
be NULL. A level is one table on the stack; a walk that needs more levels than it has gives nothing.
-/
namespace UBoot.PartDosWalk
open UBoot.PartDos UBoot.Memory UBoot.Words Option

/-! ## Chains -/

section
variable {α : Type} {R : α → α → Prop}

/-- A chain of so many links starts here. -/
def Deep (R : α → α → Prop) : ℕ → α → Prop
  | 0, _ => True
  | n+1, a => ∃ b, R a b ∧ Deep R n b

theorem deep_of_loop {a : α} (loop : R a a) (n : ℕ) : Deep R n a := by
  induction n with
  | zero => trivial
  | succ n ih => exact ⟨a,loop,ih⟩

theorem deep_of_link {a b : α} (link : R a b) (deep : ∀ n, Deep R n b) (n : ℕ) : Deep R n a := by
  cases n with
  | zero => trivial
  | succ n => exact ⟨b,link,deep n⟩

/-- A measure that grows with each link and stays below a limit bounds the chains. -/
theorem not_deep_of_measure {m : α → ℕ} {limit : ℕ} (grows : ∀ a b, R a b → m a < m b ∧ m a ≤ limit) {n : ℕ} {a : α}
    (long : limit+1 < m a+n) (some_ : 0 < n) : ¬Deep R n a := by
  induction n generalizing a with
  | zero => exact absurd some_ (by omega)
  | succ n ih =>
    rintro ⟨b,link,deep⟩
    obtain ⟨more,small⟩ := grows a b link
    exact ih (by omega) (by omega) deep

end

/-- The arguments of a call that tell which table is visited. -/
structure Table where
  ext_part_sector : ℕ
  relative : ℕ
  part_num : ℕ

inductive Line where
  | nested
  | unreadable (ext_part_sector : ℕ)
  | bad_signature (first second : UInt8)
  | part (part_num lba_start lba_size disksig : ℕ) (sys_ind : UInt8) (extd boot : Bool)

/-- The end of a search: what is returned, with the two structures unless their pointers are NULL. -/
inductive Answer where
  | deep
  | null_pointer
  | ret (ret : ℤ) (info : Option Info) (mbr : Option (List UInt8))

def next_table (buffer : Sector) (t : Table) (part_num pt : ℕ) : Table :=
  let lba_start := (start_sect buffer pt+t.relative)%2^64
  ⟨lba_start,if t.ext_part_sector = 0 then lba_start else t.relative,part_num⟩

def print_one_part (buffer : Sector) (ext_part_sector part_num disksig pt : ℕ) : Line :=
  .part part_num ((ext_part_sector+start_sect buffer pt)%2^64) (nr_sects buffer pt) disksig (sys_ind buffer pt)
    (is_extended (sys_ind buffer pt)) (get_bootable buffer pt ≠ 0)

/-- The loop over the entries: the number of the next partition and the lines. -/
def print_parts (buffer : Sector) (ext_part_sector disksig : ℕ) : List ℕ → ℕ → ℕ × List Line
  | [], part_num => (part_num,[])
  | pt :: pts, part_num =>
    let rest := print_parts buffer ext_part_sector disksig pts
      (if ext_part_sector = 0 ∨ sys_ind buffer pt ≠ 0 ∧ is_extended (sys_ind buffer pt) = false then part_num+1 else part_num)
    (rest.1,if sys_ind buffer pt ≠ 0 ∧ (ext_part_sector = 0 ∨ is_extended (sys_ind buffer pt) = false) then
      print_one_part buffer ext_part_sector part_num disksig pt :: rest.2 else rest.2)

/-- The loop over the extended partitions of a table. -/
def follow (print : ℕ → Option (List Line)) : List ℕ → Option (List Line)
  | [] => some []
  | pt :: pts => (print pt).bind fun lines => (follow print pts).map (lines ++ ·)

section
variable (dev : Device) (disk : Disk) (readable : ℕ → Bool)

def print_partition_extended : ℕ → Table → ℕ → Option (List Line)
  | 0, _, _ => none
  | levels+1, t, disksig =>
    let buffer := disk t.ext_part_sector
    if MAX_EXT_PARTS < t.part_num then some [.nested]
    else if ¬readable t.ext_part_sector then some [.unreadable t.ext_part_sector]
    else if test_block_type buffer ≠ some .DOS_MBR then
      some [.bad_signature (buffer DOS_PART_MAGIC_OFFSET) (buffer (DOS_PART_MAGIC_OFFSET+1))]
    else
      let disksig := if t.ext_part_sector = 0 then word buffer DOS_PART_DISKSIG_OFFSET else disksig
      let parts := print_parts buffer t.ext_part_sector disksig slots t.part_num
      (follow (fun pt => print_partition_extended levels (next_table buffer t parts.1 pt) disksig)
        (slots.filter fun pt => is_extended (sys_ind buffer pt))).map (parts.2 ++ ·)

def part_get_info_extended (which_part : ℕ) (info : Option Info) (mbr : Option (List UInt8)) : ℕ → Table → Answer
  | 0, _ => .deep
  | levels+1, t =>
    let buffer := disk t.ext_part_sector
    if MAX_EXT_PARTS < t.part_num ∨ ¬readable t.ext_part_sector ∨ ¬magic buffer then .ret (-1) info mbr
    else
      let found := find_part buffer t.ext_part_sector which_part slots t.part_num
      match found.2 with
      | some pt =>
        .ret 0 (info.map fun _ => entry_info dev buffer t.ext_part_sector pt) (mbr.map fun _ => load buffer pt 16)
      | none =>
        match slots.find? fun pt => is_extended (sys_ind buffer pt) with
        -- Follows the extended partitions
        | some pt => part_get_info_extended which_part info mbr levels (next_table buffer t found.1 pt)
        | none =>
          if test_block_type buffer = some .DOS_PBR then
            info.elim .null_pointer fun info =>
              .ret 0 (some { info with start := 0, size := dev.lba, blksz := info_blksz dev, bootable := 0 }) mbr
          else .ret (-1) info mbr

def first_table : Table := ⟨0,0,1⟩

def part_print_dos (levels : ℕ) : Option (List Line) := print_partition_extended disk readable levels first_table 0

def part_get_info_dos (levels part : ℕ) (info : Info) : Answer :=
  part_get_info_extended dev disk readable part (some info) none levels first_table

def part_get_mbr (levels part : ℕ) (mbr : List UInt8) : Answer :=
  part_get_info_extended dev disk readable part none (some mbr) levels first_table

/-! ## What is visited -/

/-- The table is printed and one of its extended partitions has this table. -/
def Links (t u : Table) : Prop :=
  t.part_num ≤ MAX_EXT_PARTS ∧ readable t.ext_part_sector = true ∧ test_block_type (disk t.ext_part_sector) = some .DOS_MBR ∧
    ∃ pt ∈ slots, is_extended (sys_ind (disk t.ext_part_sector) pt) = true ∧
      u = next_table (disk t.ext_part_sector) t (print_parts (disk t.ext_part_sector) t.ext_part_sector 0 slots t.part_num).1 pt

/-- The table is looked through and the partition is not in it. -/
structure Passed (part : ℕ) (t : Table) : Prop where
  few : t.part_num ≤ MAX_EXT_PARTS
  read : readable t.ext_part_sector = true
  signature : magic (disk t.ext_part_sector) = true
  unfound : (find_part (disk t.ext_part_sector) t.ext_part_sector part slots t.part_num).2 = none

/-- The table is passed and its first extended partition has this table. -/
def Follows (part : ℕ) (t u : Table) : Prop :=
  Passed disk readable part t ∧ ∃ pt, (slots.find? fun pt => is_extended (sys_ind (disk t.ext_part_sector) pt)) = some pt ∧
    u = next_table (disk t.ext_part_sector) t (find_part (disk t.ext_part_sector) t.ext_part_sector part slots t.part_num).1 pt

/-- The table is passed, and it is a boot record with a file system rather than a table. -/
def BootRecord (part : ℕ) (t : Table) : Prop :=
  Passed disk readable part t ∧ (slots.find? fun pt => is_extended (sys_ind (disk t.ext_part_sector) pt)) = none ∧
    test_block_type (disk t.ext_part_sector) = some .DOS_PBR

/-- So many levels are enough, and no NULL pointer is used. -/
structure Safe (levels part : ℕ) : Prop where
  print : part_print_dos disk readable levels ≠ none
  info : ∀ info, part_get_info_dos dev disk readable levels part info ≠ .deep ∧
    part_get_info_dos dev disk readable levels part info ≠ .null_pointer
  mbr : ∀ mbr, part_get_mbr dev disk readable levels part mbr ≠ .deep ∧ part_get_mbr dev disk readable levels part mbr ≠ .null_pointer

variable {dev disk readable} {part : ℕ}

theorem print_parts_number (buffer : Sector) (ext_part_sector disksig disksig' : ℕ) (pts : List ℕ) (part_num : ℕ) :
    (print_parts buffer ext_part_sector disksig pts part_num).1 = (print_parts buffer ext_part_sector disksig' pts part_num).1 := by
  induction pts generalizing part_num with
  | nil => rfl
  | cons pt pts ih => exact ih _

theorem follow_none {print : ℕ → Option (List Line)} {pts : List ℕ} : follow print pts = none ↔ ∃ pt ∈ pts, print pt = none := by
  induction pts with
  | nil => simp [follow]
  | cons pt pts ih =>
    rw [follow,bind_eq_none_iff]
    cases here : print pt with
    | none => simp [here]
    | some lines => simp [here,ih]

/-- Printing needs more levels just where a chain of so many links starts. -/
theorem print_none_iff (levels : ℕ) (t : Table) (disksig : ℕ) :
    print_partition_extended disk readable levels t disksig = none ↔ Deep (Links disk readable) levels t := by
  induction levels generalizing t disksig with
  | zero => exact ⟨fun _ => trivial,fun _ => rfl⟩
  | succ levels ih =>
    rw [print_partition_extended,Deep]
    by_cases many : MAX_EXT_PARTS < t.part_num
    · rw [if_pos many]
      refine ⟨fun no => by simp at no,?_⟩
      rintro ⟨u,⟨few,-⟩,-⟩
      omega
    rw [if_neg many]
    by_cases read : readable t.ext_part_sector = true
    swap
    · rw [if_pos read]
      refine ⟨fun no => by simp at no,?_⟩
      rintro ⟨u,⟨-,read',-⟩,-⟩
      exact absurd read' read
    rw [if_neg (not_not_intro read)]
    by_cases mbr : test_block_type (disk t.ext_part_sector) = some .DOS_MBR
    swap
    · rw [if_pos mbr]
      refine ⟨fun no => by simp at no,?_⟩
      rintro ⟨u,⟨-,-,mbr',-⟩,-⟩
      exact absurd mbr' mbr
    rw [if_neg (not_not_intro mbr)]
    simp only [map_eq_none_iff,follow_none,List.mem_filter,ih]
    constructor
    · rintro ⟨pt,⟨slot,extended⟩,deep⟩
      rw [print_parts_number _ _ _ 0] at deep
      exact ⟨_,⟨by omega,read,mbr,pt,slot,extended,rfl⟩,deep⟩
    · rintro ⟨u,⟨-,-,-,pt,slot,extended,rfl⟩,deep⟩
      refine ⟨pt,⟨slot,extended⟩,?_⟩
      rw [print_parts_number _ _ _ 0]
      exact deep

/-- One level of the search. -/
theorem search_cases (part : ℕ) (info : Option Info) (mbr : Option (List UInt8)) (t : Table) :
    (∃ u, Follows disk readable part t u ∧ (∀ v, Follows disk readable part t v → v = u) ∧ ¬BootRecord disk readable part t ∧
      ∀ levels, part_get_info_extended dev disk readable part info mbr (levels+1) t =
        part_get_info_extended dev disk readable part info mbr levels u) ∨
    ((∀ v, ¬Follows disk readable part t v) ∧ ∀ levels,
      part_get_info_extended dev disk readable part info mbr (levels+1) t ≠ .deep ∧
      (part_get_info_extended dev disk readable part info mbr (levels+1) t = .null_pointer ↔
        info = none ∧ BootRecord disk readable part t)) := by
  by_cases passed : Passed disk readable part t
  · obtain ⟨few,read,signature,unfound⟩ := passed
    have go : ¬(MAX_EXT_PARTS < t.part_num ∨ ¬readable t.ext_part_sector ∨ ¬magic (disk t.ext_part_sector)) := by
      simp [read,signature]
      omega
    cases link : slots.find? fun pt => is_extended (sys_ind (disk t.ext_part_sector) pt) with
    | some pt =>
      refine .inl ⟨_,⟨⟨few,read,signature,unfound⟩,pt,link,rfl⟩,?_,?_,?_⟩
      · rintro v ⟨-,pt',link',rfl⟩
        rw [link] at link'
        rw [Option.some.inj link']
      · rintro ⟨-,no,-⟩
        rw [link] at no
        cases no
      · intro levels
        rw [part_get_info_extended]
        simp only [if_neg go,unfound,link]
    | none =>
      refine .inr ⟨?_,fun levels => ?_⟩
      · rintro v ⟨-,pt,link',-⟩
        rw [link] at link'
        cases link'
      · have record : BootRecord disk readable part t ↔ test_block_type (disk t.ext_part_sector) = some .DOS_PBR :=
          ⟨fun record => record.2.2,fun pbr => ⟨⟨few,read,signature,unfound⟩,link,pbr⟩⟩
        rw [part_get_info_extended]
        simp only [if_neg go,unfound,link,record]
        cases info <;> split_ifs with pbr <;> simp [pbr]
  · refine .inr ⟨fun v follows => passed follows.1,fun levels => ?_⟩
    have no : ¬BootRecord disk readable part t := fun record => passed record.1
    rw [part_get_info_extended]
    simp only [no,and_false,iff_false]
    by_cases stop : MAX_EXT_PARTS < t.part_num ∨ ¬readable t.ext_part_sector ∨ ¬magic (disk t.ext_part_sector)
    · simp only [if_pos stop]
      simp
    · simp only [if_neg stop]
      cases found : (find_part (disk t.ext_part_sector) t.ext_part_sector part slots t.part_num).2 with
      | some pt => simp
      | none =>
        simp only [not_or,not_not,not_lt] at stop
        exact absurd ⟨stop.1,stop.2.1,stop.2.2,found⟩ passed

theorem search_deep_iff (info : Option Info) (mbr : Option (List UInt8)) (levels : ℕ) (t : Table) :
    part_get_info_extended dev disk readable part info mbr levels t = .deep ↔ Deep (Follows disk readable part) levels t := by
  induction levels generalizing t with
  | zero => exact ⟨fun _ => trivial,fun _ => rfl⟩
  | succ levels ih =>
    rw [Deep]
    rcases @search_cases dev disk readable part info mbr t with ⟨u,follows,only,-,same⟩ | ⟨never,ends⟩
    · rw [same,ih]
      constructor
      · exact fun deep => ⟨u,follows,deep⟩
      · rintro ⟨v,link,deep⟩
        rwa [← only v link]
    · exact ⟨fun deep => absurd deep (ends levels).1,fun ⟨v,link,_⟩ => absurd link (never v)⟩

/-- Where the levels are enough, the NULL pointer is used just where a boot record is reached. -/
theorem search_null_iff (info : Option Info) (mbr : Option (List UInt8)) {levels : ℕ} {t : Table}
    (enough : ¬Deep (Follows disk readable part) levels t) :
    part_get_info_extended dev disk readable part info mbr levels t = .null_pointer ↔
      info = none ∧ ∃ u, Relation.ReflTransGen (Follows disk readable part) t u ∧ BootRecord disk readable part u := by
  induction levels generalizing t with
  | zero => exact absurd trivial enough
  | succ levels ih =>
    rw [Deep] at enough
    push Not at enough
    rcases @search_cases dev disk readable part info mbr t with ⟨u,follows,only,no,same⟩ | ⟨never,ends⟩
    · rw [same,ih (enough u follows)]
      refine and_congr_right fun _ => ⟨?_,?_⟩
      · rintro ⟨v,path,record⟩
        exact ⟨v,path.head follows,record⟩
      · rintro ⟨v,path,record⟩
        rcases path.cases_head with rfl | ⟨w,link,path⟩
        · exact absurd record no
        · exact ⟨v,only w link ▸ path,record⟩
    · rw [(ends levels).2]
      refine and_congr_right fun _ => ⟨fun record => ⟨t,.refl,record⟩,?_⟩
      rintro ⟨v,path,record⟩
      rcases path.cases_head with rfl | ⟨w,link,-⟩
      · exact record
      · exact absurd link (never w)

/-- On a disk where every linked table has a partition of its own, 257 levels are enough. -/
theorem print_counted (counted : ∀ t u, Links disk readable t u → t.part_num < u.part_num) :
    part_print_dos disk readable 257 ≠ none := by
  intro deep
  exact not_deep_of_measure (fun t u link => ⟨counted t u link,link.1⟩) (by decide) (by decide) ((print_none_iff 257 _ _).mp deep)

variable (dev disk readable part)

/-- So many levels are enough, and no NULL pointer is used, just where no chain of so many linked
    tables starts in the first one and the search does not end in a boot record. -/
theorem walks_safe_iff (levels : ℕ) : Safe dev disk readable levels part ↔
    ¬Deep (Links disk readable) levels first_table ∧ ¬Deep (Follows disk readable part) levels first_table ∧
      ∀ t, Relation.ReflTransGen (Follows disk readable part) first_table t → ¬BootRecord disk readable part t := by
  constructor
  · rintro ⟨print,-,mbr⟩
    obtain ⟨levels_,null⟩ := mbr []
    have enough : ¬Deep (Follows disk readable part) levels first_table := fun deep => levels_ ((search_deep_iff _ _ _ _).mpr deep)
    exact ⟨fun deep => print ((print_none_iff _ _ _).mpr deep),enough,
      fun t path record => null ((search_null_iff _ _ enough).mpr ⟨rfl,t,path,record⟩)⟩
  · rintro ⟨print,enough,records⟩
    refine ⟨fun none_ => print ((print_none_iff _ _ _).mp none_),fun info => ⟨?_,?_⟩,fun mbr => ⟨?_,?_⟩⟩
    · exact fun deep => enough ((search_deep_iff _ _ _ _).mp deep)
    · exact fun null => absurd ((search_null_iff _ _ enough).mp null).1 (by simp)
    · exact fun deep => enough ((search_deep_iff _ _ _ _).mp deep)
    · intro null
      obtain ⟨-,t,path,record⟩ := (search_null_iff _ _ enough).mp null
      exact records t path record

end

/-- A table whose first entry is an extended partition that starts at this sector. -/
def extended_at (start : UInt8) : Sector := store blank DOS_PART_TBL_OFFSET [0,0,0,0,5,0,0,0,start,0,0,0,1,0,0,0]

/-- The extended partition starts at sector 1, and the table there refers to itself. -/
def looped : Disk := fun sector => if sector = 0 then extended_at 1 else extended_at 0

/-- The extended partition has a file system in place of a table. -/
def with_fat : Disk := fun sector => if sector = 0 then extended_at 1 else store blank DOS_PBR_FSTYPE_OFFSET [70,65,84]

/-- No bound is enough for the table that refers to itself, and a boot record in the extended
    partition lets the search for an entry use the NULL pointer. -/
theorem looped_unbounded : (∀ dev levels, ¬Safe dev looped (fun _ => true) levels 6) ∧
    ∀ dev, part_get_mbr dev with_fat (fun _ => true) 2 6 [] = .null_pointer := by
  have loop : Links looped (fun _ => true) ⟨1,1,5⟩ ⟨1,1,5⟩ :=
    ⟨by decide,rfl,by decide +kernel,DOS_PART_TBL_OFFSET,by decide,by decide +kernel,by
      simp only [next_table,Table.mk.injEq]
      decide +kernel⟩
  have first : Links looped (fun _ => true) first_table ⟨1,1,5⟩ :=
    ⟨by decide,rfl,by decide +kernel,DOS_PART_TBL_OFFSET,by decide,by decide +kernel,by
      simp only [next_table,Table.mk.injEq]
      decide +kernel⟩
  refine ⟨fun dev levels safe => safe.print ((print_none_iff _ _ _).mpr (deep_of_link first (deep_of_loop loop) levels)),?_⟩
  intro dev
  rfl

end UBoot.PartDosWalk
