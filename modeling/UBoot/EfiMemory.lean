import UBoot.Intervals
import UBoot.Runs

/-!
The EFI memory map of `lib/efi_loader/efi_memory.c`: `efi_update_memory_map` carves a range out of
the entries, restarting its walk after every change, adds the new entry, sorts the list by
descending address and merges neighbours in one sweep. Addresses are 64 bits wide. `virtual_start`
is left out: it is always set together with `physical_start` and to the same value.
-/
namespace UBoot.EfiMemory
open UBoot.Intervals UBoot.Runs List

def EFI_PAGE_SHIFT : Nat := 12
def EFI_PAGE_SIZE : Nat := 2^EFI_PAGE_SHIFT

def EFI_BOOT_SERVICES_DATA : Nat := 4
def EFI_RUNTIME_SERVICES_CODE : Nat := 5
def EFI_RUNTIME_SERVICES_DATA : Nat := 6
def EFI_CONVENTIONAL_MEMORY : Nat := 7
def EFI_MMAP_IO : Nat := 11
def EFI_PERSISTENT_MEMORY_TYPE : Nat := 14
def EFI_MAX_MEMORY_TYPE : Nat := 16

def EFI_MEMORY_WB : Nat := 0x8
def EFI_MEMORY_RUNTIME : Nat := 0x8000000000000000

def EFI_CARVE_NO_OVERLAP : Int := -1
def EFI_CARVE_LOOP_AGAIN : Int := -2
def EFI_CARVE_OVERLAPS_NONRAM : Int := -3
def EFI_CARVE_OUT_OF_RESOURCES : Int := -4

inductive Status where
  | EFI_SUCCESS
  | EFI_INVALID_PARAMETER
  | EFI_OUT_OF_RESOURCES
  | EFI_NO_MAPPING
  | EFI_NOT_FOUND
deriving DecidableEq, Repr

structure Desc where
  type : Nat
  physical_start : Nat
  num_pages : Nat
  attr : Nat
deriving DecidableEq, Repr

/-- The list is sorted from the highest address to the lowest. -/
def efi_mem_cmp (a b : Desc) : Int :=
  if a.physical_start = b.physical_start then 0 else if a.physical_start < b.physical_start then 1 else -1

def desc_get_end (desc : Desc) : Nat := (desc.physical_start+desc.num_pages*EFI_PAGE_SIZE)%2^64

/-- The sweep of `efi_mem_sort`: an entry that continues the next one is taken
    into it. -/
def merge_entries (cur : Desc) : List Desc → List Desc
  | [] => [cur]
  | next :: rest =>
    if cur.physical_start = desc_get_end next ∧ cur.type = next.type ∧ cur.attr = next.attr then
      merge_entries { next with num_pages := next.num_pages+cur.num_pages } rest
    else cur :: merge_entries next rest

/-- `list_sort` is stable, as is the insertion sort. -/
def efi_mem_sort (efi_mem : List Desc) : List Desc :=
  match efi_mem.insertionSort fun a b => efi_mem_cmp a b ≤ 0 with
  | [] => []
  | cur :: rest => merge_entries cur rest

/-- The result, and the entries in place of `map`. `calloc` says whether a new
    entry can be allocated. -/
def efi_mem_carve_out (map carve_desc : Desc) (overlap_conventional calloc : Bool) : Int × List Desc :=
  let map_start := map.physical_start
  let map_end := desc_get_end map
  let carve_start := carve_desc.physical_start
  let carve_end := desc_get_end carve_desc
  if carve_end ≤ map_start ∨ carve_start ≥ map_end then (EFI_CARVE_NO_OVERLAP,[map])
  else if overlap_conventional ∧ map.type ≠ EFI_CONVENTIONAL_MEMORY then (EFI_CARVE_OVERLAPS_NONRAM,[map])
  else
    let carve_start := max carve_start map_start
    let carve_end := min carve_end map_end
    if carve_start = map_start then
      (((carve_end-carve_start)/EFI_PAGE_SIZE : Nat),
        if map_end = carve_end then []
        else [{ map with physical_start := carve_end, num_pages := (map_end-carve_end)/EFI_PAGE_SIZE }])
    else if calloc = false then (EFI_CARVE_OUT_OF_RESOURCES,[map])
    else
      (EFI_CARVE_LOOP_AGAIN,
        [{ map with physical_start := carve_start, num_pages := (map_end-carve_start)/EFI_PAGE_SIZE },
          { map with num_pages := (carve_start-map_start)/EFI_PAGE_SIZE }])

/-- How a walk over the list ends: at its end, at a change, or with an error. -/
inductive Walk where
  | over
  | again (carved : Nat) (efi_mem : List Desc)
  | stops (status : Status)

def carve_walk (carve_desc : Desc) (overlap_conventional calloc : Bool) : List Desc → Walk
  | [] => .over
  | lmem :: rest =>
    let (r,entries) := efi_mem_carve_out lmem carve_desc overlap_conventional calloc
    if r = EFI_CARVE_OUT_OF_RESOURCES then .stops .EFI_OUT_OF_RESOURCES
    else if r = EFI_CARVE_OVERLAPS_NONRAM then .stops .EFI_NO_MAPPING
    else if r = EFI_CARVE_NO_OVERLAP then
      match carve_walk carve_desc overlap_conventional calloc rest with
      | .again carved rest => .again carved (lmem :: rest)
      | ended => ended
    else if r = EFI_CARVE_LOOP_AGAIN then .again 0 (entries ++ rest)
    else .again r.toNat (entries ++ rest)

/-- The loop for so many walks: the pages that were carved out, or an error,
    and the list. No result while the loop is still going. -/
def carve_loop (carve_desc : Desc) (overlap_conventional calloc : Bool) :
    Nat → Nat → List Desc → Option (Except Status Nat × List Desc)
  | 0, _, _ => none
  | walks+1, carved_pages, efi_mem =>
    match carve_walk carve_desc overlap_conventional calloc efi_mem with
    | .over => some (.ok carved_pages,efi_mem)
    | .again carved efi_mem => carve_loop carve_desc overlap_conventional calloc walks (carved_pages+carved) efi_mem
    | .stops status => some (.error status,efi_mem)

def attribute_of (memory_type : Int) : Nat :=
  if memory_type = EFI_RUNTIME_SERVICES_CODE ∨ memory_type = EFI_RUNTIME_SERVICES_DATA then
    EFI_MEMORY_WB ||| EFI_MEMORY_RUNTIME
  else if memory_type = EFI_MMAP_IO then EFI_MEMORY_RUNTIME
  else EFI_MEMORY_WB

/-- The `int` of a type as the `u32` of an entry. -/
def type_of (memory_type : Int) : Nat := (memory_type%2^32).toNat

/-- The status and the list, if the loop ends. The loop is given two walks for
    each entry and one to find nothing left. -/
def efi_update_memory_map (efi_mem : List Desc) (start pages : Nat) (memory_type : Int)
    (overlap_conventional remove calloc : Bool) : Option (Status × List Desc) :=
  if memory_type ≥ EFI_MAX_MEMORY_TYPE then some (.EFI_INVALID_PARAMETER,efi_mem)
  else if pages = 0 then some (.EFI_SUCCESS,efi_mem)
  else if calloc = false then some (.EFI_OUT_OF_RESOURCES,efi_mem)
  else
    let newlist : Desc := ⟨type_of memory_type,start,pages,attribute_of memory_type⟩
    match carve_loop newlist overlap_conventional calloc (2*efi_mem.length+1) 0 efi_mem with
    | none => none
    | some (.error status,efi_mem) => some (status,efi_mem)
    | some (.ok carved_pages,efi_mem) =>
      if overlap_conventional ∧ carved_pages ≠ pages then some (.EFI_NO_MAPPING,efi_mem)
      else some (.EFI_SUCCESS,efi_mem_sort (if remove then efi_mem else efi_mem ++ [newlist]))

theorem page_size : EFI_PAGE_SIZE = 4096 := rfl

def Desc.stop (d : Desc) : Nat := d.physical_start+d.num_pages*EFI_PAGE_SIZE

def Desc.label (d : Desc) : Nat × Nat := (d.type,d.attr)

/-- An entry that is not empty, starts at a page and ends at an address. -/
structure Placed (d : Desc) : Prop where
  full : 0 < d.num_pages
  aligned : EFI_PAGE_SIZE ∣ d.physical_start
  fits : d.stop < 2^64

variable {d : Desc} {x : Nat}

theorem desc_get_end_eq (placed : Placed d) : desc_get_end d = d.stop := Nat.mod_eq_of_lt placed.fits

theorem Placed.start_lt (placed : Placed d) : d.physical_start < d.stop := by
  have full := placed.full
  rw [Desc.stop,page_size]
  omega

theorem Placed.stop_aligned (placed : Placed d) : EFI_PAGE_SIZE ∣ d.stop :=
  dvd_add placed.aligned (Nat.dvd_mul_left _ _)

def part (d : Desc) (start stop : Nat) : Desc :=
  { d with physical_start := start, num_pages := (stop-start)/EFI_PAGE_SIZE }

theorem part_stop {start stop : Nat} (from_page : EFI_PAGE_SIZE ∣ start) (to_page : EFI_PAGE_SIZE ∣ stop)
    (range : start ≤ stop) : (part d start stop).stop = stop := by
  show start+(stop-start)/EFI_PAGE_SIZE*EFI_PAGE_SIZE = stop
  rw [Nat.div_mul_cancel (Nat.dvd_sub to_page from_page)]
  omega

theorem part_placed {start stop : Nat} (from_page : EFI_PAGE_SIZE ∣ start) (to_page : EFI_PAGE_SIZE ∣ stop)
    (range : start < stop) (fits : stop < 2^64) : Placed (part d start stop) := by
  refine ⟨?_,from_page,?_⟩
  · show 0 < (stop-start)/EFI_PAGE_SIZE
    rw [page_size] at *
    omega
  · rw [part_stop from_page to_page (le_of_lt range)]
    exact fits

def Clear (lo hi : Nat) (d : Desc) : Prop := hi ≤ d.physical_start ∨ d.stop ≤ lo

instance (lo hi : Nat) (d : Desc) : Decidable (Clear lo hi d) := inferInstanceAs (Decidable (_ ∨ _))

/-- What is left of an entry without a range, the upper part first. -/
def cut (lo hi : Nat) (d : Desc) : List Desc :=
  if Clear lo hi d then [d]
  else (if hi < d.stop then [part d hi d.stop] else []) ++ (if d.physical_start < lo then [part d d.physical_start lo] else [])

def Blocked (overlap_conventional : Bool) (lo hi : Nat) (d : Desc) : Prop :=
  overlap_conventional = true ∧ ¬Clear lo hi d ∧ d.type ≠ EFI_CONVENTIONAL_MEMORY

instance (overlap_conventional : Bool) (lo hi : Nat) (d : Desc) : Decidable (Blocked overlap_conventional lo hi d) :=
  inferInstanceAs (Decidable (_ ∧ _ ∧ _))

/-- An entry that stops the loop: one that an update of conventional memory may
    not touch, or one to split when no new entry can be allocated. -/
def Stops (overlap_conventional calloc : Bool) (lo hi : Nat) (d : Desc) : Prop :=
  Blocked overlap_conventional lo hi d ∨ calloc = false ∧ ¬Clear lo hi d ∧ d.physical_start < lo

instance (overlap_conventional calloc : Bool) (lo hi : Nat) (d : Desc) : Decidable (Stops overlap_conventional calloc lo hi d) :=
  inferInstanceAs (Decidable (_ ∨ _ ∧ _ ∧ _))

/-- What the loop leaves: it carves the entries one after another up to one that
    stops it. -/
def carve_until (overlap_conventional calloc : Bool) (lo hi : Nat) : List Desc → List Desc
  | [] => []
  | d :: rest =>
    if Stops overlap_conventional calloc lo hi d then d :: rest
    else cut lo hi d ++ carve_until overlap_conventional calloc lo hi rest

def met (lo hi : Nat) (d : Desc) : Nat := (min hi d.stop-max lo d.physical_start)/EFI_PAGE_SIZE

theorem met_clear {lo hi : Nat} (clear : Clear lo hi d) : met lo hi d = 0 := by
  rw [Clear] at clear
  rw [met,show min hi d.stop-max lo d.physical_start = 0 by omega,Nat.zero_div]

structure PartOf (p d : Desc) : Prop where
  placed : Placed p
  start : d.physical_start ≤ p.physical_start
  stop : p.stop ≤ d.stop
  label : p.label = d.label

/-- What is left of an entry are parts of it, apart from the range. -/
theorem cut_parts {c d : Desc} (range : Placed c) (placed : Placed d) :
    ∀ p ∈ cut c.physical_start c.stop d, PartOf p d ∧ Clear c.physical_start c.stop p := by
  intro p member
  rw [cut] at member
  split at member
  next clear =>
    rw [mem_singleton.mp member]
    exact ⟨⟨placed,le_rfl,le_rfl,rfl⟩,clear⟩
  next overlaps =>
    have fits := placed.fits
    rw [Clear] at overlaps
    rcases mem_append.mp member with upper | lower
    · split at upper
      next more =>
        rw [mem_singleton.mp upper]
        have stop : (part d c.stop d.stop).stop = d.stop :=
          part_stop range.stop_aligned placed.stop_aligned (le_of_lt more)
        refine ⟨⟨part_placed range.stop_aligned placed.stop_aligned more fits,?_,le_of_eq stop,rfl⟩,
          .inl le_rfl⟩
        show d.physical_start ≤ c.stop
        omega
      next => simp at upper
    · split at lower
      next more =>
        rw [mem_singleton.mp lower]
        have stop : (part d d.physical_start c.physical_start).stop = c.physical_start :=
          part_stop placed.aligned range.aligned (le_of_lt more)
        refine ⟨⟨part_placed placed.aligned range.aligned more (by omega),le_rfl,by omega,rfl⟩,
          .inr (le_of_eq stop)⟩
      next => simp at lower

section loop
variable {c : Desc} (range : Placed c) (overlap_conventional calloc : Bool)
include range

theorem carve_out_eq (placed : Placed d) :
    efi_mem_carve_out d c overlap_conventional calloc =
      if Clear c.physical_start c.stop d then (EFI_CARVE_NO_OVERLAP,[d])
      else if overlap_conventional = true ∧ d.type ≠ EFI_CONVENTIONAL_MEMORY then (EFI_CARVE_OVERLAPS_NONRAM,[d])
      else if max c.physical_start d.physical_start = d.physical_start then
        (((min c.stop d.stop-max c.physical_start d.physical_start)/EFI_PAGE_SIZE : Nat),
          if d.stop = min c.stop d.stop then [] else [part d (min c.stop d.stop) d.stop])
      else if calloc = false then (EFI_CARVE_OUT_OF_RESOURCES,[d])
      else
        (EFI_CARVE_LOOP_AGAIN,[part d (max c.physical_start d.physical_start) d.stop,
          part d d.physical_start (max c.physical_start d.physical_start)]) := by
  rw [efi_mem_carve_out]
  simp only [desc_get_end_eq range,desc_get_end_eq placed]
  rfl

theorem walk_clear (placed : Placed d) (clear : Clear c.physical_start c.stop d) (rest : List Desc) :
    carve_walk c overlap_conventional calloc (d :: rest) =
      match carve_walk c overlap_conventional calloc rest with
      | .again carved rest => .again carved (d :: rest)
      | ended => ended := by
  have none_ : efi_mem_carve_out d c overlap_conventional calloc = (EFI_CARVE_NO_OVERLAP,[d]) := by
    rw [carve_out_eq range overlap_conventional calloc placed,if_pos clear]
  rw [carve_walk,none_]
  rfl

theorem walk_append {done : List Desc} (clear : ∀ d ∈ done, Placed d ∧ Clear c.physical_start c.stop d)
    (rest : List Desc) :
    carve_walk c overlap_conventional calloc (done ++ rest) =
      match carve_walk c overlap_conventional calloc rest with
      | .again carved rest => .again carved (done ++ rest)
      | ended => ended := by
  induction done with
  | nil =>
    rw [nil_append]
    split <;> simp_all
  | cons d done ih =>
    have first := clear d mem_cons_self
    rw [cons_append,walk_clear range overlap_conventional calloc first.1 first.2,
      ih (fun d member => clear d (mem_cons_of_mem _ member))]
    cases carve_walk c overlap_conventional calloc rest <;> rfl

theorem walk_stops (placed : Placed d)
    (stops : Stops overlap_conventional calloc c.physical_start c.stop d) (rest : List Desc) :
    ∃ status, carve_walk c overlap_conventional calloc (d :: rest) = .stops status ∧
      (status = .EFI_NO_MAPPING ∧ overlap_conventional = true ∨ status = .EFI_OUT_OF_RESOURCES ∧ calloc = false) := by
  set strict := overlap_conventional
  by_cases blocked : Blocked strict c.physical_start c.stop d
  · have nonram : efi_mem_carve_out d c strict calloc = (EFI_CARVE_OVERLAPS_NONRAM,[d]) := by
      rw [carve_out_eq range strict calloc placed,if_neg blocked.2.1,if_pos ⟨blocked.1,blocked.2.2⟩]
    refine ⟨.EFI_NO_MAPPING,?_,.inl ⟨rfl,blocked.1⟩⟩
    rw [carve_walk,nonram]
    rfl
  obtain ⟨failed,overlaps,before⟩ := stops.resolve_left blocked
  have conventional : ¬(strict = true ∧ d.type ≠ EFI_CONVENTIONAL_MEMORY) := by
    rintro ⟨only,type⟩
    exact blocked ⟨only,overlaps,type⟩
  have resources : efi_mem_carve_out d c strict calloc = (EFI_CARVE_OUT_OF_RESOURCES,[d]) := by
    rw [carve_out_eq range strict calloc placed,if_neg overlaps,if_neg conventional,
      max_eq_left (le_of_lt before),if_neg (by omega),if_pos failed]
  refine ⟨.EFI_OUT_OF_RESOURCES,?_,.inr ⟨rfl,failed⟩⟩
  rw [carve_walk,resources]
  rfl

omit range in
theorem carved_codes (carved : Nat) : ¬(carved : Int) = EFI_CARVE_OUT_OF_RESOURCES ∧
    ¬(carved : Int) = EFI_CARVE_OVERLAPS_NONRAM ∧ ¬(carved : Int) = EFI_CARVE_NO_OVERLAP ∧
    ¬(carved : Int) = EFI_CARVE_LOOP_AGAIN := by
  simp only [EFI_CARVE_OUT_OF_RESOURCES,EFI_CARVE_OVERLAPS_NONRAM,EFI_CARVE_NO_OVERLAP,EFI_CARVE_LOOP_AGAIN]
  omega

theorem walk_front (placed : Placed d) (overlaps : ¬Clear c.physical_start c.stop d)
    (free : ¬Blocked overlap_conventional c.physical_start c.stop d) (inside : c.physical_start ≤ d.physical_start)
    (rest : List Desc) :
    carve_walk c overlap_conventional calloc (d :: rest) =
      .again (met c.physical_start c.stop d) ((if c.stop < d.stop then [part d c.stop d.stop] else []) ++ rest) := by
  have conventional : ¬(overlap_conventional = true ∧ d.type ≠ EFI_CONVENTIONAL_MEMORY) := by
    rintro ⟨only,type⟩
    exact free ⟨only,overlaps,type⟩
  have carves : efi_mem_carve_out d c overlap_conventional calloc =
      ((met c.physical_start c.stop d : Int),if c.stop < d.stop then [part d c.stop d.stop] else []) := by
    rw [carve_out_eq range overlap_conventional calloc placed,if_neg overlaps,if_neg conventional,
      if_pos (max_eq_right inside),met]
    by_cases more : c.stop < d.stop
    · rw [if_pos more,min_eq_left (le_of_lt more),if_neg (by omega)]
    · rw [if_neg more,min_eq_right (by omega),if_pos rfl]
  generalize met c.physical_start c.stop d = carved at carves
  obtain ⟨resources,nonram,overlap,again⟩ := carved_codes carved
  rw [carve_walk,carves]
  simp only [if_neg resources,if_neg nonram,if_neg overlap,if_neg again,Int.toNat_natCast]

theorem walk_split (placed : Placed d) (overlaps : ¬Clear c.physical_start c.stop d)
    (free : ¬Blocked overlap_conventional c.physical_start c.stop d) (before : d.physical_start < c.physical_start)
    (rest : List Desc) :
    carve_walk c overlap_conventional true (d :: rest) =
      .again 0 (part d c.physical_start d.stop :: part d d.physical_start c.physical_start :: rest) := by
  have conventional : ¬(overlap_conventional = true ∧ d.type ≠ EFI_CONVENTIONAL_MEMORY) := by
    rintro ⟨only,type⟩
    exact free ⟨only,overlaps,type⟩
  have splits : efi_mem_carve_out d c overlap_conventional true =
      (EFI_CARVE_LOOP_AGAIN,[part d c.physical_start d.stop,part d d.physical_start c.physical_start]) := by
    rw [carve_out_eq range overlap_conventional true placed,if_neg overlaps,if_neg conventional,
      max_eq_left (le_of_lt before),if_neg (by omega),if_neg (by simp)]
  rw [carve_walk,splits]
  rfl

theorem carve_loop_entry {done : List Desc} (clear : ∀ d ∈ done, Placed d ∧ Clear c.physical_start c.stop d)
    (placed : Placed d) (overlaps : ¬Clear c.physical_start c.stop d)
    (free : ¬Stops overlap_conventional calloc c.physical_start c.stop d) (rest : List Desc) (walks carved_pages : Nat) :
    ∃ walks', walks ≤ walks' ∧
      carve_loop c overlap_conventional calloc (walks+2) carved_pages (done ++ d :: rest) =
        carve_loop c overlap_conventional calloc walks' (carved_pages+met c.physical_start c.stop d)
          ((done ++ cut c.physical_start c.stop d) ++ rest) := by
  have not_clear : ¬(c.stop ≤ d.physical_start ∨ d.stop ≤ c.physical_start) := overlaps
  have unblocked : ¬Blocked overlap_conventional c.physical_start c.stop d := fun blocked => free (.inl blocked)
  by_cases inside : c.physical_start ≤ d.physical_start
  · have walk := walk_front range overlap_conventional calloc placed overlaps unblocked inside rest
    refine ⟨walks+1,by omega,?_⟩
    rw [carve_loop,walk_append range overlap_conventional calloc clear,walk,cut,if_neg overlaps,
      if_neg (by omega : ¬d.physical_start < c.physical_start)]
    simp
  -- The upper part that the first walk splits off starts at the range.
  have before : d.physical_start < c.physical_start := by omega
  have allocated : calloc = true := by
    by_contra failed
    exact free (.inr ⟨by simpa using failed,overlaps,before⟩)
  have stop : (part d c.physical_start d.stop).stop = d.stop :=
    part_stop range.aligned placed.stop_aligned (by omega)
  have upper : Placed (part d c.physical_start d.stop) :=
    part_placed range.aligned placed.stop_aligned (by omega) placed.fits
  have longer := range.start_lt
  have start : (part d c.physical_start d.stop).physical_start = c.physical_start := rfl
  have overlapped : ¬Clear c.physical_start c.stop (part d c.physical_start d.stop) := by
    rw [Clear,start,stop]
    omega
  have upper_unblocked : ¬Blocked overlap_conventional c.physical_start c.stop (part d c.physical_start d.stop) :=
    fun blocked => unblocked ⟨blocked.1,overlaps,blocked.2.2⟩
  have walk := walk_front range overlap_conventional true upper overlapped upper_unblocked le_rfl
    (part d d.physical_start c.physical_start :: rest)
  have same : met c.physical_start c.stop (part d c.physical_start d.stop) = met c.physical_start c.stop d := by
    rw [met,met,start,stop,max_self,max_eq_left (le_of_lt before)]
  refine ⟨walks,le_rfl,?_⟩
  subst allocated
  rw [carve_loop,walk_append range overlap_conventional true clear,
    walk_split range overlap_conventional placed overlaps unblocked before]
  simp only
  rw [carve_loop,walk_append range overlap_conventional true clear,walk,cut,if_neg overlaps,if_pos before,stop,same]
  simp [part]

/-- The loop ends and has carved the entries up to one that stops it. -/
theorem carve_loop_until {l : List Desc} (placed : ∀ d ∈ l, Placed d) {done : List Desc}
    (clear : ∀ d ∈ done, Placed d ∧ Clear c.physical_start c.stop d) {walks : Nat} (enough : 2*l.length < walks)
    (carved_pages : Nat) :
    ∃ result, carve_loop c overlap_conventional calloc walks carved_pages (done ++ l) =
        some (result,done ++ carve_until overlap_conventional calloc c.physical_start c.stop l) ∧
      (∀ carved, result = .ok carved → (∀ d ∈ l, ¬Stops overlap_conventional calloc c.physical_start c.stop d) ∧
        carved = carved_pages+(l.map (met c.physical_start c.stop)).sum) ∧
      ∀ status, result = .error status → (∃ d ∈ l, Stops overlap_conventional calloc c.physical_start c.stop d) ∧
        (status = .EFI_NO_MAPPING ∧ overlap_conventional = true ∨ status = .EFI_OUT_OF_RESOURCES ∧ calloc = false) := by
  induction l generalizing done walks carved_pages with
  | nil =>
    obtain ⟨walks,rfl⟩ : ∃ n, walks = n+1 := ⟨walks-1,by omega⟩
    refine ⟨.ok carved_pages,?_,by simp,by simp⟩
    rw [carve_loop,walk_append range overlap_conventional calloc clear]
    rfl
  | cons d rest ih =>
    have here := placed d mem_cons_self
    have later : ∀ d ∈ rest, Placed d := fun d member => placed d (mem_cons_of_mem _ member)
    rw [length_cons] at enough
    by_cases stops : Stops overlap_conventional calloc c.physical_start c.stop d
    · obtain ⟨walks,rfl⟩ : ∃ n, walks = n+1 := ⟨walks-1,by omega⟩
      obtain ⟨status,walk,code⟩ := walk_stops range overlap_conventional calloc here stops rest
      refine ⟨.error status,?_,by simp,?_⟩
      · rw [carve_loop,walk_append range overlap_conventional calloc clear,walk,carve_until,if_pos stops]
      · rintro _ ⟨⟩
        exact ⟨⟨d,mem_cons_self,stops⟩,code⟩
    -- The entry is passed over or carved, and the rest is left to the walks that remain.
    suffices on : ∃ walks', 2*rest.length < walks' ∧
        carve_loop c overlap_conventional calloc walks carved_pages (done ++ d :: rest) =
          carve_loop c overlap_conventional calloc walks' (carved_pages+met c.physical_start c.stop d)
            ((done ++ cut c.physical_start c.stop d) ++ rest) by
      obtain ⟨walks',many,carves⟩ := on
      have more : ∀ e ∈ done ++ cut c.physical_start c.stop d, Placed e ∧ Clear c.physical_start c.stop e := by
        intro e member
        rcases mem_append.mp member with old | new
        · exact clear e old
        · have found := cut_parts range here e new
          exact ⟨found.1.placed,found.2⟩
      obtain ⟨result,loops,free,stopped⟩ := ih later more many (carved_pages+met c.physical_start c.stop d)
      refine ⟨result,?_,?_,?_⟩
      · rw [carves,loops,carve_until,if_neg stops,append_assoc]
      · intro carved ok
        obtain ⟨unstopped,sum⟩ := free carved ok
        refine ⟨?_,by rw [sum,map_cons,sum_cons,add_assoc]⟩
        intro e member
        rcases mem_cons.mp member with rfl | behind
        · exact stops
        · exact unstopped e behind
      · intro status error
        obtain ⟨⟨e,behind,which⟩,code⟩ := stopped status error
        exact ⟨⟨e,mem_cons_of_mem _ behind,which⟩,code⟩
    by_cases apart : Clear c.physical_start c.stop d
    · refine ⟨walks,by omega,?_⟩
      rw [met_clear apart,cut,if_pos apart]
      simp
    · obtain ⟨walks,rfl⟩ : ∃ n, walks = n+2 := ⟨walks-2,by omega⟩
      obtain ⟨walks',many,carves⟩ := carve_loop_entry range overlap_conventional calloc clear here apart stops
        rest walks carved_pages
      exact ⟨walks',by omega,carves⟩

end loop

/-- `a` lies above `b` and could not be merged with it. -/
def Above (a b : Desc) : Prop := b.stop ≤ a.physical_start ∧ (b.stop = a.physical_start → a.label ≠ b.label)

/-- The entries are placed and descend, and no two could be merged. -/
structure Canonical (l : List Desc) : Prop where
  placed : ∀ d ∈ l, Placed d
  above : l.Pairwise Above

def Covers (l : List Desc) (x : Nat) (label : Nat × Nat) : Prop :=
  ∃ d ∈ l, d.physical_start ≤ x ∧ x < d.stop ∧ d.label = label

theorem Above.parts {a b p q : Desc} (above : Above a b) (first : PartOf p a) (second : PartOf q b) : Above p q := by
  obtain ⟨below,differ⟩ := above
  have high := first.start
  have low := second.stop
  refine ⟨by omega,?_⟩
  intro touch
  rw [first.label,second.label]
  exact differ (by omega)

theorem PartOf.refl (placed : Placed d) : PartOf d d := ⟨placed,le_rfl,le_rfl,rfl⟩

section carving
variable {c : Desc} (range : Placed c) {overlap_conventional calloc : Bool} {l : List Desc}
include range

theorem carve_until_parts (placed : ∀ d ∈ l, Placed d) :
    ∀ p ∈ carve_until overlap_conventional calloc c.physical_start c.stop l, ∃ d ∈ l, PartOf p d := by
  induction l with
  | nil => simp [carve_until]
  | cons d rest ih =>
    intro p member
    rw [carve_until] at member
    split at member
    · exact ⟨p,member,PartOf.refl (placed p member)⟩
    · rcases mem_append.mp member with here | later
      · exact ⟨d,mem_cons_self,(cut_parts range (placed d mem_cons_self) p here).1⟩
      · obtain ⟨e,behind,part_of⟩ := ih (fun e behind => placed e (mem_cons_of_mem _ behind)) p later
        exact ⟨e,mem_cons_of_mem _ behind,part_of⟩

theorem cut_above (placed : Placed d) : (cut c.physical_start c.stop d).Pairwise Above := by
  rw [cut]
  split
  · exact pairwise_singleton _ _
  next overlaps =>
    have longer := range.start_lt
    split
    · split
      next _ before =>
        have stop : (part d d.physical_start c.physical_start).stop = c.physical_start :=
          part_stop placed.aligned range.aligned (le_of_lt before)
        refine pairwise_pair.mpr ⟨?_,?_⟩
        · rw [stop]
          exact le_of_lt longer
        · intro touch
          have meets : c.physical_start = c.stop := stop.symm.trans touch
          omega
      · exact pairwise_singleton _ _
    · split
      · exact pairwise_singleton _ _
      · exact List.Pairwise.nil

theorem carve_until_canonical (canonical : Canonical l) :
    Canonical (carve_until overlap_conventional calloc c.physical_start c.stop l) := by
  refine ⟨?_,?_⟩
  · intro p member
    obtain ⟨d,_,part_of⟩ := carve_until_parts range canonical.placed p member
    exact part_of.placed
  obtain ⟨placed,above⟩ := canonical
  induction l with
  | nil => exact List.Pairwise.nil
  | cons d rest ih =>
    rw [carve_until]
    split
    · exact above
    · obtain ⟨first,tail⟩ := pairwise_cons.mp above
      have here := placed d mem_cons_self
      have later : ∀ e ∈ rest, Placed e := fun e behind => placed e (mem_cons_of_mem _ behind)
      refine pairwise_append.mpr ⟨cut_above range here,ih later tail,?_⟩
      intro p upper q lower
      obtain ⟨e,behind,part_of⟩ := carve_until_parts range later q lower
      exact (first e behind).parts (cut_parts range here p upper).1 part_of

theorem cut_covers (placed : Placed d) {label : Nat × Nat} :
    Covers (cut c.physical_start c.stop d) x label ↔
      (d.physical_start ≤ x ∧ x < d.stop ∧ d.label = label) ∧ ¬(c.physical_start ≤ x ∧ x < c.stop) := by
  constructor
  · rintro ⟨p,member,low,high,same⟩
    obtain ⟨part_of,clear⟩ := cut_parts range placed p member
    have start := part_of.start
    have stop := part_of.stop
    rw [Clear] at clear
    exact ⟨⟨by omega,by omega,part_of.label.symm.trans same⟩,by omega⟩
  · rintro ⟨⟨low,high,same⟩,outside⟩
    rw [cut]
    split
    · exact ⟨d,mem_singleton_self d,low,high,same⟩
    next overlaps =>
      rw [Clear] at overlaps
      by_cases behind : c.stop ≤ x
      · have more : c.stop < d.stop := by omega
        rw [if_pos more]
        have stop : (part d c.stop d.stop).stop = d.stop :=
          part_stop range.stop_aligned placed.stop_aligned (le_of_lt more)
        exact ⟨part d c.stop d.stop,by simp,behind,by omega,same⟩
      · have more : d.physical_start < c.physical_start := by omega
        rw [if_pos more]
        have stop : (part d d.physical_start c.physical_start).stop = c.physical_start :=
          part_stop placed.aligned range.aligned (le_of_lt more)
        exact ⟨part d d.physical_start c.physical_start,by simp,low,by omega,same⟩

theorem carve_until_outside (placed : ∀ d ∈ l, Placed d) (outside : ¬(c.physical_start ≤ x ∧ x < c.stop))
    {label : Nat × Nat} :
    Covers (carve_until overlap_conventional calloc c.physical_start c.stop l) x label ↔ Covers l x label := by
  induction l with
  | nil => rfl
  | cons d rest ih =>
    rw [carve_until]
    split
    · rfl
    · have here : Covers (cut c.physical_start c.stop d) x label ↔ _ := cut_covers range (placed d mem_cons_self)
      have later := ih (fun e behind => placed e (mem_cons_of_mem _ behind))
      simp only [Covers,mem_append,mem_cons,or_and_right,exists_or,exists_eq_left] at here later ⊢
      rw [here,later]
      simp [outside]

theorem carve_until_clear (placed : ∀ d ∈ l, Placed d)
    (free : ∀ d ∈ l, ¬Stops overlap_conventional calloc c.physical_start c.stop d) :
    ∀ p ∈ carve_until overlap_conventional calloc c.physical_start c.stop l, Clear c.physical_start c.stop p := by
  induction l with
  | nil => simp [carve_until]
  | cons d rest ih =>
    intro p member
    rw [carve_until,if_neg (free d mem_cons_self)] at member
    rcases mem_append.mp member with here | later
    · exact (cut_parts range (placed d mem_cons_self) p here).2
    · exact ih (fun e behind => placed e (mem_cons_of_mem _ behind))
        (fun e behind => free e (mem_cons_of_mem _ behind)) p later

end carving

structure Descending (l : List Desc) : Prop where
  placed : ∀ d ∈ l, Placed d
  below : l.Pairwise fun a b => b.stop ≤ a.physical_start

theorem efi_mem_cmp_le {a b : Desc} : efi_mem_cmp a b ≤ 0 ↔ b.physical_start ≤ a.physical_start := by
  rw [efi_mem_cmp]
  split_ifs <;> omega

instance : Std.Total fun a b => efi_mem_cmp a b ≤ 0 where
  total a b := by
    rw [efi_mem_cmp_le,efi_mem_cmp_le]
    exact Nat.le_total _ _

instance : IsTrans Desc fun a b => efi_mem_cmp a b ≤ 0 where
  trans a b c first second := by
    rw [efi_mem_cmp_le] at *
    omega

theorem sort_descending {l : List Desc} (placed : ∀ d ∈ l, Placed d)
    (apart : l.Pairwise fun a b => a.stop ≤ b.physical_start ∨ b.stop ≤ a.physical_start) :
    Descending (l.insertionSort fun a b => efi_mem_cmp a b ≤ 0) := by
  have same := perm_insertionSort (fun a b : Desc => efi_mem_cmp a b ≤ 0) l
  have members : ∀ d ∈ l.insertionSort fun a b => efi_mem_cmp a b ≤ 0, Placed d :=
    fun d member => placed d (same.mem_iff.mp member)
  refine ⟨members,?_⟩
  have sorted := pairwise_insertionSort (fun a b : Desc => efi_mem_cmp a b ≤ 0) l
  have disjoint := (same.pairwise_iff (fun {a b} either => Or.symm either)).mpr apart
  refine List.Pairwise.imp_of_mem ?_ (sorted.and disjoint)
  rintro a b first _ ⟨order,either⟩
  rw [efi_mem_cmp_le] at order
  have longer := (members a first).start_lt
  omega

def joined (cur next : Desc) : Desc := { next with num_pages := next.num_pages+cur.num_pages }

theorem joined_stop {cur next : Desc} (touch : cur.physical_start = next.stop) : (joined cur next).stop = cur.stop := by
  simp only [Desc.stop,joined] at *
  rw [touch]
  ring

/-- The sweep over a list that descends: it is canonical then, covers the same,
    and goes no higher than before. -/
structure Swept (cur : Desc) (rest merged : List Desc) : Prop where
  canonical : Canonical merged
  covers : ∀ x label, Covers merged x label ↔ Covers (cur :: rest) x label
  highest : ∀ d ∈ merged, d.stop ≤ cur.stop ∧ (d.stop = cur.stop → d.label = cur.label)

section sweeping
variable {cur next : Desc} {rest merged : List Desc} (descending : Descending (cur :: next :: rest))
include descending

theorem descending_joined (touch : cur.physical_start = next.stop) : Descending (joined cur next :: rest) := by
  obtain ⟨placed,below⟩ := descending
  obtain ⟨_,tail⟩ := pairwise_cons.mp below
  obtain ⟨second,others⟩ := pairwise_cons.mp tail
  have cur_placed := placed cur mem_cons_self
  have next_placed := placed next (by simp)
  refine ⟨?_,pairwise_cons.mpr ⟨second,others⟩⟩
  intro d member
  rcases mem_cons.mp member with rfl | later
  · refine ⟨Nat.add_pos_left next_placed.full _,next_placed.aligned,?_⟩
    rw [joined_stop touch]
    exact cur_placed.fits
  · exact placed d (by simp [later])

theorem swept_joined (touch : cur.physical_start = next.stop) (same : cur.label = next.label)
    (swept : Swept (joined cur next) rest merged) : Swept cur (next :: rest) merged := by
  have stop := joined_stop touch
  have label : (joined cur next).label = cur.label := same.symm
  have start : (joined cur next).physical_start = next.physical_start := rfl
  have longer := (descending.placed cur mem_cons_self).start_lt
  have longer' := (descending.placed next (by simp)).start_lt
  refine ⟨swept.canonical,?_,?_⟩
  · intro x named
    have either : ((joined cur next).physical_start ≤ x ∧ x < (joined cur next).stop ∧
        (joined cur next).label = named) ↔
        (cur.physical_start ≤ x ∧ x < cur.stop ∧ cur.label = named) ∨
          (next.physical_start ≤ x ∧ x < next.stop ∧ next.label = named) := by
      rw [stop,label,start,← same]
      constructor
      · rintro ⟨low,high,holds⟩
        by_cases upper : cur.physical_start ≤ x
        · exact .inl ⟨upper,high,holds⟩
        · exact .inr ⟨low,by omega,holds⟩
      · rintro (⟨low,high,holds⟩ | ⟨low,high,holds⟩)
        · exact ⟨by omega,high,holds⟩
        · exact ⟨low,by omega,holds⟩
    have covers := swept.covers x named
    simp only [Covers,mem_cons,or_and_right,exists_or,exists_eq_left] at covers ⊢
    rw [covers,either,or_assoc]
  · intro d member
    have highest := swept.highest d member
    rwa [stop,label] at highest

theorem swept_apart (apart : ¬(cur.physical_start = next.stop ∧ cur.label = next.label))
    (swept : Swept next rest merged) : Swept cur (next :: rest) (cur :: merged) := by
  obtain ⟨lower,_⟩ := pairwise_cons.mp descending.below
  have below := lower next mem_cons_self
  have cur_placed := descending.placed cur mem_cons_self
  have longer := cur_placed.start_lt
  refine ⟨⟨?_,pairwise_cons.mpr ⟨?_,swept.canonical.above⟩⟩,?_,?_⟩
  · intro d member
    rcases mem_cons.mp member with rfl | later
    · exact cur_placed
    · exact swept.canonical.placed d later
  · intro d later
    obtain ⟨high,highest⟩ := swept.highest d later
    refine ⟨by omega,?_⟩
    intro touch same
    -- The entry that touches has taken in `next`, which did not fit.
    have label := highest (by omega)
    exact apart ⟨by omega,same.trans label⟩
  · intro x named
    have covers := swept.covers x named
    simp only [Covers,mem_cons,or_and_right,exists_or,exists_eq_left] at covers ⊢
    rw [covers]
  · intro d member
    rcases mem_cons.mp member with rfl | later
    · exact ⟨le_rfl,fun _ => rfl⟩
    · have high := (swept.highest d later).1
      exact ⟨by omega,by omega⟩

end sweeping

theorem merge_entries_swept {cur : Desc} {rest : List Desc} (descending : Descending (cur :: rest)) :
    Swept cur rest (merge_entries cur rest) := by
  induction rest generalizing cur with
  | nil =>
    refine ⟨⟨descending.placed,pairwise_singleton _ _⟩,fun _ _ => Iff.rfl,?_⟩
    intro d member
    rw [mem_singleton.mp member]
    exact ⟨le_rfl,fun _ => rfl⟩
  | cons next rest ih =>
    have label : cur.label = next.label ↔ cur.type = next.type ∧ cur.attr = next.attr := Prod.mk_inj
    rw [merge_entries,desc_get_end_eq (descending.placed next (by simp))]
    split
    next touches =>
      exact swept_joined descending touches.1 (label.mpr touches.2) (ih (descending_joined descending touches.1))
    next apart =>
      rw [← label] at apart
      refine swept_apart descending apart (ih ⟨?_,(pairwise_cons.mp descending.below).2⟩)
      intro d member
      exact descending.placed d (mem_cons_of_mem _ member)

theorem efi_mem_sort_canonical {l : List Desc} (placed : ∀ d ∈ l, Placed d)
    (apart : l.Pairwise fun a b => a.stop ≤ b.physical_start ∨ b.stop ≤ a.physical_start) :
    Canonical (efi_mem_sort l) ∧ ∀ x label, Covers (efi_mem_sort l) x label ↔ Covers l x label := by
  have descending := sort_descending placed apart
  have same := perm_insertionSort (fun a b : Desc => efi_mem_cmp a b ≤ 0) l
  have members (x : Nat) (label : Nat × Nat) :
      Covers (l.insertionSort fun a b => efi_mem_cmp a b ≤ 0) x label ↔ Covers l x label := by
    simp only [Covers,same.mem_iff]
  rw [efi_mem_sort]
  split
  next empty =>
    rw [empty] at members
    exact ⟨⟨by simp,List.Pairwise.nil⟩,members⟩
  next cur rest sorted =>
    rw [sorted] at members descending
    have swept := merge_entries_swept descending
    exact ⟨swept.canonical,fun x label => (swept.covers x label).trans (members x label)⟩

def area (d : Desc) : Intervals.Interval (Nat × Nat) := ⟨d.physical_start,d.num_pages*EFI_PAGE_SIZE,d.label⟩

def areas (l : List Desc) : List (Intervals.Interval (Nat × Nat)) := (l.map area).reverse

def page_map (l : List Desc) (page : Nat) : Option (Nat × Nat) := value (l.map area) (page*EFI_PAGE_SIZE)

theorem value_covers {l : List Desc} (canonical : Canonical l) {label : Nat × Nat} :
    value (l.map area) x = some label ↔ Covers l x label := by
  obtain ⟨placed,above⟩ := canonical
  induction l with
  | nil => simp [Covers]
  | cons d rest ih =>
    obtain ⟨first,tail⟩ := pairwise_cons.mp above
    have later := ih (fun e member => placed e (mem_cons_of_mem _ member)) tail
    have start : (area d).base = d.physical_start := rfl
    have stop : (area d).stop = d.stop := rfl
    rw [map_cons,value_cons,start,stop]
    by_cases inside : d.physical_start ≤ x ∧ x < d.stop
    · rw [if_pos inside]
      constructor
      · intro same
        exact ⟨d,mem_cons_self,inside.1,inside.2,Option.some.inj same⟩
      · rintro ⟨e,member,low,high,same⟩
        rcases mem_cons.mp member with rfl | behind
        · exact congrArg some same
        · have below := (first e behind).1
          omega
    · rw [if_neg inside,later]
      constructor
      · rintro ⟨e,member,covers⟩
        exact ⟨e,mem_cons_of_mem _ member,covers⟩
      · rintro ⟨e,member,low,high,same⟩
        rcases mem_cons.mp member with rfl | behind
        · exact absurd ⟨low,high⟩ inside
        · exact ⟨e,behind,low,high,same⟩

theorem canonical_areas {l : List Desc} (canonical : Canonical l) : Apart (areas l) ∧ Merged (areas l) := by
  obtain ⟨placed,above⟩ := canonical
  refine ⟨⟨?_,?_⟩,?_⟩
  · intro r member
    obtain ⟨d,listed,rfl⟩ := mem_map.mp (mem_reverse.mp member)
    exact mul_pos (placed d listed).full (by decide)
  · rw [areas,pairwise_reverse,pairwise_map]
    exact above.imp (fun relation => relation.1)
  · rw [Merged,areas,isChain_reverse,isChain_map]
    refine (above.imp ?_).isChain
    rintro a b ⟨_,differ⟩ ⟨touch,same⟩
    exact differ touch same.symm

/-- A call of `efi_update_memory_map`: the start is a page, the end an address,
    and the type below the bound. -/
structure Call where
  start : Nat
  pages : Nat
  memory_type : Int
  overlap_conventional : Bool
  remove : Bool
  aligned : EFI_PAGE_SIZE ∣ start
  fits : start+pages*EFI_PAGE_SIZE < 2^64
  bounded : memory_type < EFI_MAX_MEMORY_TYPE

def Call.label (call : Call) : Option (Nat × Nat) :=
  if call.remove then none else some (type_of call.memory_type,attribute_of call.memory_type)

def Call.desc (call : Call) : Desc := ⟨type_of call.memory_type,call.start,call.pages,attribute_of call.memory_type⟩

theorem Call.desc_stop (call : Call) : call.desc.stop = call.start+call.pages*EFI_PAGE_SIZE := rfl

def update (l : List Desc) (call : Call) : Option (Status × List Desc) :=
  efi_update_memory_map l call.start call.pages call.memory_type call.overlap_conventional call.remove true

theorem canonical_apart {l : List Desc} (canonical : Canonical l) :
    l.Pairwise fun a b => a.stop ≤ b.physical_start ∨ b.stop ≤ a.physical_start :=
  canonical.above.imp (fun relation => .inr relation.1)

theorem finish_spec {l : List Desc} (canonical : Canonical l) (call : Call) (range : Placed call.desc)
    (clear : ∀ d ∈ l, Clear call.desc.physical_start call.desc.stop d) :
    Canonical (efi_mem_sort (if call.remove then l else l ++ [call.desc])) ∧
      ∀ x label, Covers (efi_mem_sort (if call.remove then l else l ++ [call.desc])) x label ↔
        Covers l x label ∨ (call.start ≤ x ∧ x < call.start+call.pages*EFI_PAGE_SIZE) ∧ call.label = some label := by
  rw [Call.label]
  cases call.remove with
  | true =>
    obtain ⟨sorted,covers⟩ := efi_mem_sort_canonical canonical.placed (canonical_apart canonical)
    refine ⟨sorted,?_⟩
    intro x label
    simpa using covers x label
  | false =>
    have placed : ∀ d ∈ l ++ [call.desc], Placed d := by
      intro d member
      rcases mem_append.mp member with old | new
      · exact canonical.placed d old
      · rw [mem_singleton.mp new]
        exact range
    have apart : (l ++ [call.desc]).Pairwise fun a b => a.stop ≤ b.physical_start ∨ b.stop ≤ a.physical_start := by
      refine pairwise_append.mpr ⟨canonical_apart canonical,pairwise_singleton _ _,?_⟩
      intro d member new single
      rw [mem_singleton.mp single]
      exact (clear d member).symm
    obtain ⟨sorted,covers⟩ := efi_mem_sort_canonical placed apart
    refine ⟨sorted,?_⟩
    intro x label
    rw [if_neg (by simp),covers x label]
    simp only [Covers,mem_append,mem_singleton,or_and_right,exists_or,exists_eq_left,Call.desc_stop,and_assoc]
    simp [Call.desc,Desc.label]

def Call.Inside (call : Call) (x : Nat) : Prop := call.start ≤ x ∧ x < call.start+call.pages*EFI_PAGE_SIZE

instance (call : Call) (x : Nat) : Decidable (call.Inside x) := inferInstanceAs (Decidable (_ ∧ _))

/-- What an update comes to: the list is canonical and says nothing that is
    neither old nor asked for; outside the range it says what it said, and after a
    success it says of the range what was asked for. -/
structure Updates (l : List Desc) (call : Call) (status : Status) (after : List Desc) : Prop where
  canonical : Canonical after
  only : ∀ x label, Covers after x label → Covers l x label ∨ call.Inside x ∧ call.label = some label
  outside : ∀ x label, ¬call.Inside x → (Covers after x label ↔ Covers l x label)
  failed : status ≠ .EFI_SUCCESS → ∀ x label, Covers after x label → Covers l x label
  covers : status = .EFI_SUCCESS → ∀ x label, Covers after x label ↔
    if call.Inside x then call.label = some label else Covers l x label

/-- The loop and what follows it, where new entries for a split can be allocated
    or cannot. Where the range may overlap anything, only an entry to be split
    makes it fail. -/
theorem update_loop_spec {l : List Desc} (canonical : Canonical l) (call : Call) (some_pages : 0 < call.pages)
    (calloc : Bool) :
    ∃ status after,
      (match carve_loop call.desc call.overlap_conventional calloc (2*l.length+1) 0 l with
        | none => none
        | some (.error status,l) => some (status,l)
        | some (.ok carved_pages,l) =>
          if call.overlap_conventional ∧ carved_pages ≠ call.pages then some (.EFI_NO_MAPPING,l)
          else some (.EFI_SUCCESS,efi_mem_sort (if call.remove then l else l ++ [call.desc]))) = some (status,after) ∧
      Updates l call status after ∧
      (call.overlap_conventional = false → (status = .EFI_SUCCESS ↔
        ∀ d ∈ l, ¬Stops false calloc call.desc.physical_start call.desc.stop d)) := by
  set strict := call.overlap_conventional
  have range : Placed call.desc := ⟨some_pages,call.aligned,call.fits⟩
  obtain ⟨result,loops,unstopped,stopped⟩ := @carve_loop_until call.desc range strict calloc l
    canonical.placed [] (by simp) (2*l.length+1) (by omega) 0
  rw [nil_append,nil_append] at loops
  have carved := @carve_until_canonical _ range strict calloc l canonical
  have parts := @carve_until_parts _ range strict calloc l canonical.placed
  have outside := fun x label (clear : ¬call.Inside x) =>
    @carve_until_outside x _ range strict calloc l canonical.placed clear label
  have emptied := @carve_until_clear _ range strict calloc l canonical.placed
  generalize carve_until strict calloc call.desc.physical_start call.desc.stop l = pieces at *
  have old : ∀ x label, Covers pieces x label → Covers l x label := by
    rintro x label ⟨p,member,low,high,same⟩
    obtain ⟨d,listed,part_of⟩ := parts p member
    exact ⟨d,listed,part_of.start.trans low,lt_of_lt_of_le high part_of.stop,part_of.label.symm.trans same⟩
  have unfinished {status : Status} (failure : status ≠ .EFI_SUCCESS) : Updates l call status pieces :=
    ⟨carved,fun x label covers => .inl (old x label covers),outside,fun _ => old,fun success => absurd success failure⟩
  simp only [loops]
  cases result with
  | error status =>
    obtain ⟨⟨d,member,stops⟩,code⟩ := stopped status rfl
    have failure : status ≠ .EFI_SUCCESS := by
      rintro rfl
      simp at code
    refine ⟨_,_,rfl,unfinished failure,fun anything => iff_of_false failure fun free => ?_⟩
    rw [anything] at stops
    exact free d member stops
  | ok carved_pages =>
    have free := (unstopped carved_pages rfl).1
    by_cases missing : strict = true ∧ carved_pages ≠ call.pages
    · exact ⟨_,_,if_pos missing,unfinished (by simp),fun anything => by simp [anything] at missing⟩
    have clear := emptied free
    obtain ⟨sorted,covers⟩ := finish_spec carved call range clear
    have none_inside : ∀ x label, call.Inside x → ¬Covers pieces x label := by
      rintro x label ⟨start,stop⟩ ⟨p,member,low,high,_⟩
      have apart : call.start+call.pages*EFI_PAGE_SIZE ≤ p.physical_start ∨ p.stop ≤ call.start := clear p member
      omega
    have success : ∀ x label, Covers (efi_mem_sort (if call.remove then pieces else pieces ++ [call.desc])) x label ↔
        if call.Inside x then call.label = some label else Covers l x label := by
      intro x label
      rw [covers x label]
      by_cases inside : call.Inside x
      · rw [if_pos inside,or_iff_right (none_inside x label inside)]
        exact and_iff_right inside
      · rw [if_neg inside,outside x label inside]
        exact or_iff_left (fun both => inside both.1)
    refine ⟨_,_,if_neg missing,⟨sorted,?_,?_,fun failure => absurd rfl failure,fun _ => success⟩,fun anything => ?_⟩
    · exact fun x label new => ((covers x label).mp new).imp_left (old x label)
    · intro x label clear
      rw [success x label,if_neg clear]
    · refine iff_of_true rfl fun d member => ?_
      rw [anything] at free
      exact free d member

/-- What a call does: it ends, the list is canonical and says nothing that is
    neither old nor asked for; it succeeds where it may overlap anything, and
    after a success the addresses of the range and no others are described as
    the call says. -/
theorem update_spec {l : List Desc} (canonical : Canonical l) (call : Call) :
    ∃ status after, update l call = some (status,after) ∧ Canonical after ∧
      (∀ x label, Covers after x label → Covers l x label ∨
        (call.start ≤ x ∧ x < call.start+call.pages*EFI_PAGE_SIZE) ∧ call.label = some label) ∧
      (call.overlap_conventional = false → status = .EFI_SUCCESS) ∧
      (status = .EFI_SUCCESS → ∀ x label, Covers after x label ↔
        if call.start ≤ x ∧ x < call.start+call.pages*EFI_PAGE_SIZE then call.label = some label
        else Covers l x label) := by
  rw [update,efi_update_memory_map,if_neg (by have := call.bounded; omega)]
  by_cases empty : call.pages = 0
  · refine ⟨_,_,if_pos empty,canonical,fun x label covers => .inl covers,fun _ => rfl,?_⟩
    intro _ x label
    rw [if_neg (by rw [empty]; omega)]
  · rw [if_neg empty,if_neg (by simp)]
    obtain ⟨status,after,ends,updates,succeeds⟩ := update_loop_spec canonical call (by omega) true
    refine ⟨status,after,ends,updates.canonical,updates.only,fun anything => ?_,updates.covers⟩
    refine (succeeds anything).mpr fun d _ => ?_
    simp [Stops,Blocked]

def step (l : List Desc) (call : Call) : List Desc :=
  match update l call with
  | some (_,after) => after
  | none => l

/-- What is to hold of a call: it ends; the entries are sorted, not empty and
    apart, and no two neighbours that touch say the same; and a call that
    succeeds describes the pages of its range as it says and no others. -/
def Pointwise (l : List Desc) (call : Call) : Prop :=
  ∃ status after, update l call = some (status,after) ∧ Apart (areas after) ∧ Merged (areas after) ∧
    (status = .EFI_SUCCESS → ∀ page, page_map after page =
      if call.start/EFI_PAGE_SIZE ≤ page ∧ page < call.start/EFI_PAGE_SIZE+call.pages then call.label
      else page_map l page)

theorem canonical_step {l : List Desc} (canonical : Canonical l) (call : Call) : Canonical (step l call) := by
  obtain ⟨status,after,updates,sorted,_,_,_⟩ := update_spec canonical call
  rw [step,updates]
  exact sorted

theorem call_page (call : Call) (page : Nat) :
    call.start ≤ page*EFI_PAGE_SIZE ∧ page*EFI_PAGE_SIZE < call.start+call.pages*EFI_PAGE_SIZE ↔
      call.start/EFI_PAGE_SIZE ≤ page ∧ page < call.start/EFI_PAGE_SIZE+call.pages := by
  have aligned := call.aligned
  rw [page_size] at *
  omega

theorem pointwise_step {l : List Desc} (canonical : Canonical l) (call : Call) : Pointwise l call := by
  obtain ⟨status,after,updates,sorted,_,_,covers⟩ := update_spec canonical call
  obtain ⟨apart,merged⟩ := canonical_areas sorted
  refine ⟨status,after,updates,apart,merged,?_⟩
  intro success page
  apply Option.ext
  intro label
  rw [page_map,value_covers sorted,covers success]
  by_cases inside : call.start ≤ page*EFI_PAGE_SIZE ∧ page*EFI_PAGE_SIZE < call.start+call.pages*EFI_PAGE_SIZE
  · rw [if_pos inside,if_pos ((call_page call page).mp inside)]
  · rw [if_neg inside,if_neg (fun member => inside ((call_page call page).mpr member))]
    exact (value_covers canonical).symm

/-- Every call of every run from the empty map ends, leaves a list in order and,
    if it succeeds, updates the map on its range and nowhere else. -/
theorem memory_map_pointwise (calls : List Call) : Along step Pointwise [] calls := by
  have empty : Canonical [] := ⟨by simp,List.Pairwise.nil⟩
  have any : Along step (fun _ _ => True) [] calls := along_of_forall (fun _ _ => trivial) [] calls
  have keeps : ∀ l call, Canonical l → True → Canonical (step l call) :=
    fun l call canonical _ => canonical_step canonical call
  exact along_of_invariant keeps (fun l call canonical _ => pointwise_step canonical call) empty any

/-- A range over the end of one entry, over a second and into a third: one entry
    is left where the type is the same. -/
example : update [⟨7,0x6000,2,8⟩,⟨4,0x4000,1,8⟩,⟨7,0x1000,2,8⟩] ⟨0x2000,5,7,false,false,by decide,by decide,by decide⟩ =
    some (.EFI_SUCCESS,[⟨7,0x1000,7,8⟩]) := by decide +kernel

end UBoot.EfiMemory
