import Mathlib.Algebra.Order.BigOperators.Group.Finset
import Mathlib.Order.Interval.Finset.Nat
import UBoot.EfiLmb
import UBoot.LmbUndo

/-!
Failed calls of `efi_allocate_pages`. The range that the memory blocks give is carved out of the
map one entry after another, the highest one first, before it is known whether all of its pages are
conventional memory; when they are not, the range goes back to the memory blocks and the carved
pages are not put back. A new entry of the map and the one that a split needs may fail to be
allocated independently of each other.
-/
namespace UBoot.EfiPagesUndo
open UBoot.Intervals List
open UBoot.EfiMemory (Desc Status Covers Canonical Clear Blocked Stops carve_until cut met carve_loop efi_mem_sort desc_get_end
  EFI_PAGE_SIZE EFI_CONVENTIONAL_MEMORY EFI_PERSISTENT_MEMORY_TYPE EFI_MAX_MEMORY_TYPE type_of attribute_of page_map page_size)
open UBoot.EfiLmb (Books Outside AllocateType MapOp with_used with_map request refusal int_of lmb_free lmb_alloc_mem Listed
  LMB_NONOTIFY)
open UBoot.Lmb (Lmb Region Alist MemType LMB_NOOVERWRITE LMB_ALLOC_ANYWHERE Proper Placed Sound Held Severed SameBytes
  lmb_add_region_flags lmb_overlap_checks lmb_addrs_overlap alloc_search rgn add64 sub64)

/-- As `EfiMemory.efi_update_memory_map`, where `calloc` says whether the new entry
    can be allocated and `split` whether one for the upper part of a split can. -/
def efi_update_memory_map (efi_mem : List Desc) (start pages : Nat) (memory_type : Int)
    (overlap_conventional remove calloc split : Bool) : Option (Status × List Desc) :=
  if memory_type ≥ EFI_MAX_MEMORY_TYPE then some (.EFI_INVALID_PARAMETER,efi_mem)
  else if pages = 0 then some (.EFI_SUCCESS,efi_mem)
  else if calloc = false then some (.EFI_OUT_OF_RESOURCES,efi_mem)
  else
    let newlist : Desc := ⟨type_of memory_type,start,pages,attribute_of memory_type⟩
    match carve_loop newlist overlap_conventional split (2*efi_mem.length+1) 0 efi_mem with
    | none => none
    | some (.error status,efi_mem) => some (status,efi_mem)
    | some (.ok carved_pages,efi_mem) =>
      if overlap_conventional ∧ carved_pages ≠ pages then some (.EFI_NO_MAPPING,efi_mem)
      else some (.EFI_SUCCESS,efi_mem_sort (if remove then efi_mem else efi_mem ++ [newlist]))

structure Call where
  type : AllocateType
  memory_type : Nat
  pages : Nat
  memory : Option UInt64
  out : Outside
  split : Bool

abbrev flags : Nat := LMB_NOOVERWRITE ||| LMB_NONOTIFY

/-- The end of `efi_allocate_pages`: the range is described, or the call bails
    out. -/
def update_or_bail (b : Books) (call : Call) (start : UInt64) (efi_addr len : Nat) : Option (Status × Option Nat × Books) :=
  match efi_update_memory_map b.efi_mem efi_addr call.pages (int_of call.memory_type) true false call.out.calloc call.split with
  | none => none
  | some (ret,efi_mem) =>
    let b := with_map b efi_mem
    if ret ≠ .EFI_SUCCESS then
      (lmb_free b efi_addr len flags call.out).map fun (_,b) => (refusal call.type,some start.toNat,b)
    else some (.EFI_SUCCESS,some efi_addr,b)

/-- As `EfiLmb.efi_allocate_pages`, with both allocations of the update. -/
def efi_allocate_pages (b : Books) (call : Call) : Option (Status × Option Nat × Books) :=
  if EFI_PERSISTENT_MEMORY_TYPE ≤ call.memory_type ∧ call.memory_type ≤ 0x6FFFFFFF then
    some (.EFI_INVALID_PARAMETER,call.memory.map UInt64.toNat,b)
  else
    match call.memory with
    | none => some (.EFI_INVALID_PARAMETER,none,b)
    | some start =>
      let len := call.pages*EFI_PAGE_SIZE%2^64
      if len/EFI_PAGE_SIZE ≠ call.pages then some (.EFI_OUT_OF_RESOURCES,some start.toNat,b)
      else
        match request call.type start.toNat call.out.garbage.toNat with
        | .error status => some (status,some start.toNat,b)
        | .ok (lmb_type,align,addr) =>
          match lmb_alloc_mem b lmb_type align addr len flags call.out with
          | none => none
          | some (err,efi_addr,b) =>
            if err ≠ 0 then some (refusal call.type,some start.toNat,b)
            else update_or_bail b call start efi_addr len

def page_type (efi_mem : List Desc) (page : Nat) : Option Nat := (page_map efi_mem page).map Prod.fst

def InRange (start pages page : Nat) : Prop := start ≤ page*EFI_PAGE_SIZE ∧ page*EFI_PAGE_SIZE < start+pages*EFI_PAGE_SIZE

def AllConventional (efi_mem : List Desc) (start pages : Nat) : Prop :=
  ∀ page, InRange start pages page → page_type efi_mem page = some EFI_CONVENTIONAL_MEMORY

def first_met (efi_mem : List Desc) (start pages : Nat) : Option Desc :=
  efi_mem.find? fun d => ¬Clear start (start+pages*EFI_PAGE_SIZE) d

/-- An entry has pages on both sides of the start of a range. -/
def Splits (efi_mem : List Desc) (start pages : Nat) : Prop :=
  ∃ d ∈ efi_mem, ¬Clear start (start+pages*EFI_PAGE_SIZE) d ∧ d.physical_start < start

def Described (efi_mem : List Desc) (start pages : Nat) (memory_type : Int) (calloc split : Bool) : Prop :=
  memory_type < EFI_MAX_MEMORY_TYPE ∧ calloc = true ∧ AllConventional efi_mem start pages ∧
    (split = true ∨ ¬Splits efi_mem start pages)

/-- The update does not get to carve anything: its type is none, no entry can be
    allocated, or the highest entry that meets the range is not conventional
    memory or would have to be split in vain. -/
def Spared (efi_mem : List Desc) (start pages : Nat) (memory_type : Int) (calloc split : Bool) : Prop :=
  (EFI_MAX_MEMORY_TYPE : Int) ≤ memory_type ∨ calloc = false ∨
    ∀ d ∈ first_met efi_mem start pages, d.type ≠ EFI_CONVENTIONAL_MEMORY ∨ split = false ∧ d.physical_start < start

def SameTypes (efi_mem after : List Desc) : Prop := ∀ page, page_type after page = page_type efi_mem page

section carving
variable {c : Desc} (range : EfiMemory.Placed c) {overlap_conventional calloc : Bool} {l : List Desc}

theorem carve_until_spared {lo hi : Nat}
    (stops : ∀ d ∈ l.find? (fun d => ¬Clear lo hi d), Stops overlap_conventional calloc lo hi d) :
    carve_until overlap_conventional calloc lo hi l = l := by
  induction l with
  | nil => rfl
  | cons d rest ih =>
    rw [carve_until]
    by_cases clear : Clear lo hi d
    · have free : ¬Stops overlap_conventional calloc lo hi d := by
        rintro (blocked | ⟨_,overlaps,_⟩)
        · exact blocked.2.1 clear
        · exact overlaps clear
      rw [find?_cons_of_neg (by simp [clear])] at stops
      rw [if_neg free,cut,if_pos clear,ih stops]
      rfl
    · rw [find?_cons_of_pos (by simp [clear])] at stops
      rw [if_pos (stops d rfl)]

theorem carve_until_carved (canonical : Canonical l) (range : EfiMemory.Placed c) {d : Desc}
    (first : d ∈ l.find? (fun d => ¬Clear c.physical_start c.stop d))
    (free : ¬Stops overlap_conventional calloc c.physical_start c.stop d) :
    ∀ p ∈ carve_until overlap_conventional calloc c.physical_start c.stop l,
      ¬ (p.physical_start ≤ max c.physical_start d.physical_start ∧ max c.physical_start d.physical_start < p.stop) := by
  obtain ⟨placed,above⟩ := canonical
  have longer := range.start_lt
  induction l with
  | nil => simp at first
  | cons e rest ih =>
    obtain ⟨lower,tail⟩ := pairwise_cons.mp above
    have here := placed e mem_cons_self
    have later : ∀ e ∈ rest, EfiMemory.Placed e := fun e member => placed e (mem_cons_of_mem _ member)
    by_cases clear : Clear c.physical_start c.stop e
    · rw [find?_cons_of_neg (by simp [clear])] at first
      have some_rest := mem_of_find?_eq_some first
      have meets : ¬Clear c.physical_start c.stop d := by simpa using find?_some first
      have below := (lower d some_rest).1
      have unstopped : ¬Stops overlap_conventional calloc c.physical_start c.stop e := by
        rintro (blocked | ⟨_,overlaps,_⟩)
        · exact blocked.2.1 clear
        · exact overlaps clear
      intro p member
      rw [carve_until,if_neg unstopped,cut,if_pos clear] at member
      rcases mem_cons.mp member with rfl | behind
      · have longer' := (placed d (mem_cons_of_mem _ some_rest)).start_lt
        simp only [Clear] at meets clear
        omega
      · exact ih first later tail p behind
    · rw [find?_cons_of_pos (by simp [clear])] at first
      obtain rfl : e = d := Option.some.inj first
      intro p member
      rw [carve_until,if_neg free] at member
      rcases mem_append.mp member with mine | others
      · obtain ⟨part_of,outside⟩ := EfiMemory.cut_parts range here p mine
        have longer' := here.start_lt
        simp only [Clear] at outside clear
        omega
      · obtain ⟨f,behind,part_of⟩ := EfiMemory.carve_until_parts range later p others
        have below := (lower f behind).1
        have stop := part_of.stop
        omega

end carving

theorem page_type_covers {efi_mem : List Desc} (canonical : Canonical efi_mem) {page type : Nat} :
    page_type efi_mem page = some type ↔
      ∃ d ∈ efi_mem, (d.physical_start ≤ page*EFI_PAGE_SIZE ∧ page*EFI_PAGE_SIZE < d.stop) ∧ d.type = type := by
  rw [page_type,Option.map_eq_some_iff]
  constructor
  · rintro ⟨label,described,rfl⟩
    obtain ⟨d,member,low,high,rfl⟩ := (EfiMemory.value_covers canonical).mp described
    exact ⟨d,member,⟨low,high⟩,rfl⟩
  · rintro ⟨d,member,⟨low,high⟩,rfl⟩
    exact ⟨d.label,(EfiMemory.value_covers canonical).mpr ⟨d,member,low,high,rfl⟩,rfl⟩

theorem page_type_none {efi_mem : List Desc} {page : Nat}
    (missing : ∀ p ∈ efi_mem, ¬ (p.physical_start ≤ page*EFI_PAGE_SIZE ∧ page*EFI_PAGE_SIZE < p.stop)) :
    page_type efi_mem page = none := by
  have clear : value (efi_mem.map EfiMemory.area) (page*EFI_PAGE_SIZE) = none := by
    refine value_eq_none fun r member => ?_
    obtain ⟨d,listed,rfl⟩ := mem_map.mp member
    have outside := missing d listed
    show page*EFI_PAGE_SIZE < d.physical_start ∨ d.stop ≤ page*EFI_PAGE_SIZE
    omega
  rw [page_type,page_map,clear]
  rfl

theorem stops_iff {split : Bool} {lo hi : Nat} {d : Desc} :
    Stops true split lo hi d ↔ ¬Clear lo hi d ∧ (d.type ≠ EFI_CONVENTIONAL_MEMORY ∨ split = false ∧ d.physical_start < lo) := by
  rw [Stops,Blocked]
  tauto

section counting
variable {start pages : Nat} (aligned : EFI_PAGE_SIZE ∣ start)
include aligned

theorem in_range_iff {page : Nat} :
    InRange start pages page ↔ page ∈ Finset.Ico (start/EFI_PAGE_SIZE) (start/EFI_PAGE_SIZE+pages) := by
  rw [InRange,Finset.mem_Ico,page_size] at *
  omega

theorem met_sum {l : List Desc} (canonical : Canonical l) :
    (l.map (met start (start+pages*EFI_PAGE_SIZE))).sum =
      ((Finset.Ico (start/EFI_PAGE_SIZE) (start/EFI_PAGE_SIZE+pages)).filter fun page =>
        ∃ d ∈ l, d.physical_start ≤ page*EFI_PAGE_SIZE ∧ page*EFI_PAGE_SIZE < d.stop).card := by
  obtain ⟨placed,above⟩ := canonical
  induction l with
  | nil => simp
  | cons d rest ih =>
    obtain ⟨lower,tail⟩ := pairwise_cons.mp above
    have here := placed d mem_cons_self
    have start_page := here.aligned
    have stop_page := here.stop_aligned
    have longer := here.start_lt
    have apart : Disjoint (Finset.Ico (max (start/EFI_PAGE_SIZE) (d.physical_start/EFI_PAGE_SIZE))
          (min (start/EFI_PAGE_SIZE+pages) (d.stop/EFI_PAGE_SIZE)))
        ((Finset.Ico (start/EFI_PAGE_SIZE) (start/EFI_PAGE_SIZE+pages)).filter fun page =>
          ∃ e ∈ rest, e.physical_start ≤ page*EFI_PAGE_SIZE ∧ page*EFI_PAGE_SIZE < e.stop) := by
      rw [Finset.disjoint_left]
      intro page mine others
      obtain ⟨_,e,behind,_,high⟩ := Finset.mem_filter.mp others
      have below := (lower e behind).1
      simp only [Finset.mem_Ico,max_le_iff,page_size] at mine high start_page
      omega
    have sum : met start (start+pages*EFI_PAGE_SIZE) d =
        min (start/EFI_PAGE_SIZE+pages) (d.stop/EFI_PAGE_SIZE)-max (start/EFI_PAGE_SIZE) (d.physical_start/EFI_PAGE_SIZE) := by
      rw [met,page_size] at *
      omega
    rw [map_cons,sum_cons,ih (fun e member => placed e (mem_cons_of_mem _ member)) tail,sum,← Nat.card_Ico,
      ← Finset.card_union_of_disjoint apart]
    congr 1
    ext page
    have mine : (d.physical_start ≤ page*EFI_PAGE_SIZE ∧ page*EFI_PAGE_SIZE < d.stop) ↔
        d.physical_start/EFI_PAGE_SIZE ≤ page ∧ page < d.stop/EFI_PAGE_SIZE := by
      rw [page_size] at *
      omega
    simp only [Finset.mem_filter,Finset.mem_union,Finset.mem_Ico,mem_cons,exists_eq_or_imp,mine,max_le_iff,lt_min_iff]
    tauto

end counting
section updating
variable {efi_mem : List Desc} (canonical : Canonical efi_mem) {start pages : Nat} (some_pages : 0 < pages)
  (aligned : EFI_PAGE_SIZE ∣ start) (fits : start+pages*EFI_PAGE_SIZE < 2^64)
include canonical some_pages aligned fits

omit fits in
theorem all_conventional_iff (free : ∀ d ∈ efi_mem, ¬Blocked true start (start+pages*EFI_PAGE_SIZE) d) :
    (efi_mem.map (met start (start+pages*EFI_PAGE_SIZE))).sum = pages ↔ AllConventional efi_mem start pages := by
  have whole : (Finset.Ico (start/EFI_PAGE_SIZE) (start/EFI_PAGE_SIZE+pages)).card = pages := by
    rw [Nat.card_Ico]
    omega
  rw [met_sum aligned canonical]
  conv_lhs => rhs; rw [← whole]
  rw [Finset.card_filter_eq_iff]
  refine forall_congr' fun page => ?_
  rw [← in_range_iff aligned]
  refine imp_congr_right fun inside => ?_
  rw [page_type_covers canonical]
  constructor
  · rintro ⟨d,member,low,high⟩
    refine ⟨d,member,⟨low,high⟩,?_⟩
    by_contra other
    refine free d member ⟨rfl,?_,other⟩
    rw [Clear]
    rw [InRange] at inside
    omega
  · rintro ⟨d,member,covers,_⟩
    exact ⟨d,member,covers⟩

omit fits in
theorem met_page {d : Desc} (member : d ∈ efi_mem) (meets : ¬Clear start (start+pages*EFI_PAGE_SIZE) d) :
    ∃ page, page*EFI_PAGE_SIZE = max start d.physical_start ∧ InRange start pages page ∧
      page_type efi_mem page = some d.type := by
  have here := canonical.placed d member
  have start_page := here.aligned
  have longer := here.start_lt
  have at_page : max start d.physical_start/EFI_PAGE_SIZE*EFI_PAGE_SIZE = max start d.physical_start := by
    rw [page_size] at *
    omega
  rw [Clear] at meets
  refine ⟨_,at_page,?_,(page_type_covers canonical).mpr ⟨d,member,?_,rfl⟩⟩
  · rw [InRange,at_page]
    have : 0 < pages*EFI_PAGE_SIZE := mul_pos some_pages (by decide)
    omega
  · rw [at_page]
    omega

omit fits in
theorem carved_types_iff {c : Desc} (start_c : c.physical_start = start) (stop_c : c.stop = start+pages*EFI_PAGE_SIZE)
    (range : EfiMemory.Placed c) (split : Bool) :
    SameTypes efi_mem (carve_until true split c.physical_start c.stop efi_mem) ↔
      ∀ d ∈ first_met efi_mem start pages, d.type ≠ EFI_CONVENTIONAL_MEMORY ∨ split = false ∧ d.physical_start < start := by
  have meets {d : Desc} (first : d ∈ first_met efi_mem start pages) : ¬Clear start (start+pages*EFI_PAGE_SIZE) d := by
    simpa using find?_some first
  constructor
  · intro same d first
    by_contra carved
    have free : ¬Stops true split c.physical_start c.stop d := by
      rw [start_c,stop_c,stops_iff]
      exact fun stops => carved stops.2
    have gone := carve_until_carved canonical range (by rw [start_c,stop_c]; exact first) free
    obtain ⟨page,at_page,_,described⟩ := met_page canonical some_pages aligned (mem_of_find?_eq_some first) (meets first)
    have none_ : page_type (carve_until true split c.physical_start c.stop efi_mem) page = none := by
      refine page_type_none fun p member => ?_
      rw [at_page,← start_c]
      exact gone p member
    have := same page
    rw [none_,described] at this
    simp at this
  · intro stops
    rw [start_c,stop_c,carve_until_spared]
    · exact fun _ => rfl
    · intro d first
      rw [stops_iff]
      exact ⟨meets first,stops d first⟩

/-- An update of conventional memory ends. It succeeds if it can describe the
    range, and one that fails keeps the type of every page if and only if it does
    not get to carve anything. -/
theorem update_described (memory_type : Int) (calloc split : Bool) :
    ∃ status after, efi_update_memory_map efi_mem start pages memory_type true false calloc split = some (status,after) ∧
      (status = .EFI_SUCCESS ↔ Described efi_mem start pages memory_type calloc split) ∧
      (status ≠ .EFI_SUCCESS → (SameTypes efi_mem after ↔ Spared efi_mem start pages memory_type calloc split)) := by
  rw [efi_update_memory_map.eq_def]
  by_cases unknown : memory_type ≥ EFI_MAX_MEMORY_TYPE
  · refine ⟨_,_,if_pos unknown,?_,fun _ => iff_of_true (fun _ => rfl) (.inl unknown)⟩
    exact iff_of_false (by simp) (fun described => by have := described.1; omega)
  rw [if_neg unknown,if_neg (by omega)]
  cases calloc with
  | false =>
    refine ⟨_,_,if_pos rfl,?_,fun _ => iff_of_true (fun _ => rfl) (.inr (.inl rfl))⟩
    exact iff_of_false (by simp) (fun described => by simpa using described.2.1)
  | true =>
    let c : Desc := ⟨type_of memory_type,start,pages,attribute_of memory_type⟩
    have range : EfiMemory.Placed c := ⟨some_pages,aligned,fits⟩
    obtain ⟨result,loops,free,stopped⟩ := @EfiMemory.carve_loop_until c range true split efi_mem canonical.placed []
      (by simp) (2*efi_mem.length+1) (by omega) 0
    have spared_iff : SameTypes efi_mem (carve_until true split c.physical_start c.stop efi_mem) ↔
        Spared efi_mem start pages memory_type true split := by
      rw [carved_types_iff canonical some_pages aligned rfl rfl range split,Spared]
      simp [unknown]
    rw [nil_append,nil_append] at loops
    rw [if_neg (by simp)]
    simp only [c] at loops
    simp only [loops]
    cases result with
    | error status =>
      obtain ⟨⟨d,member,stops⟩,code⟩ := stopped status rfl
      have failure : status ≠ .EFI_SUCCESS := by
        rintro rfl
        simp at code
      refine ⟨_,_,rfl,iff_of_false failure ?_,fun _ => spared_iff⟩
      -- The entry that stops the loop is none of those that the range may have.
      rintro ⟨_,_,all,alone⟩
      obtain ⟨meets,other | ⟨failed,before⟩⟩ := stops_iff.mp stops
      · obtain ⟨page,_,inside,described⟩ := met_page canonical some_pages aligned member meets
        have conventional := all page inside
        rw [described] at conventional
        exact other (Option.some.inj conventional)
      · rcases alone with allocated | unsplit
        · simp [allocated] at failed
        · exact unsplit ⟨d,member,meets,before⟩
    | ok carved_pages =>
      obtain ⟨unstopped,sum⟩ := free carved_pages rfl
      have unblocked : ∀ d ∈ efi_mem, ¬Blocked true start (start+pages*EFI_PAGE_SIZE) d :=
        fun d member blocked => unstopped d member (.inl blocked)
      have unsplit : split = true ∨ ¬Splits efi_mem start pages := by
        cases split with
        | true => exact .inl rfl
        | false =>
          refine .inr ?_
          rintro ⟨d,member,meets,before⟩
          exact unstopped d member (.inr ⟨rfl,meets,before⟩)
      have all_iff := all_conventional_iff canonical some_pages aligned unblocked
      have total : carved_pages = (efi_mem.map (met start (start+pages*EFI_PAGE_SIZE))).sum := by
        rw [sum,zero_add]
        rfl
      rw [← total] at all_iff
      by_cases missing : carved_pages ≠ pages
      · refine ⟨_,_,if_pos ⟨trivial,missing⟩,iff_of_false (by simp) ?_,fun _ => spared_iff⟩
        exact fun described => missing (all_iff.mpr described.2.2.1)
      · have all := all_iff.mp (not_not.mp missing)
        refine ⟨_,_,if_neg (fun both => missing both.2),iff_of_true rfl ⟨by omega,rfl,all,unsplit⟩,?_⟩
        exact fun failure => absurd rfl failure

end updating
structure Asked where
  type : MemType
  align : Nat
  addr : Nat
  size : Nat

/-- What a call asks for, unless its parameters are refused. -/
def asked (call : Call) : Option Asked :=
  if EFI_PERSISTENT_MEMORY_TYPE ≤ call.memory_type ∧ call.memory_type ≤ 0x6FFFFFFF then none
  else
    match call.memory with
    | none => none
    | some start =>
      if call.pages*EFI_PAGE_SIZE%2^64/EFI_PAGE_SIZE ≠ call.pages then none
      else
        match request call.type start.toNat call.out.garbage.toNat with
        | .error _ => none
        | .ok (type,align,addr) => some ⟨type,align,addr,call.pages*EFI_PAGE_SIZE⟩

/-- The start of the range that the memory blocks pick: the one that a search
    finds, or the address if the range lies in the memory and meets nothing. -/
def picked (lmb : Lmb) (a : Asked) : Option Nat :=
  match a.type with
  | .any => (alloc_search lmb.used_mem.regions a.size a.align LMB_ALLOC_ANYWHERE lmb.available_mem.regions.reverse).join
  | .max => (alloc_search lmb.used_mem.regions a.size a.align a.addr lmb.available_mem.regions.reverse).join
  | .addr =>
    match lmb_overlap_checks lmb.available_mem.regions a.addr a.size LMB_NOOVERWRITE true with
    | none => none
    | some i =>
      let r := rgn lmb.available_mem.regions i
      if lmb_addrs_overlap r.base r.size (sub64 (add64 a.addr a.size) 1) 1 ∧
        lmb_overlap_checks lmb.used_mem.regions a.addr a.size flags false = none then some a.addr
      else none

def Entered (lmb : Lmb) (base size : Nat) (memory : Bool) : Prop :=
  (lmb_add_region_flags lmb.used_mem base size flags memory).1 = 0

instance (lmb : Lmb) (base size : Nat) (memory : Bool) : Decidable (Entered lmb base size memory) :=
  inferInstanceAs (Decidable (_ = _))

/-- The address that a search leaves behind when the list does not take its range. -/
def Asked.left (a : Asked) : Nat := if a.type = .any then LMB_ALLOC_ANYWHERE else a.addr

section searching
variable {used : List Region} (bounded : Lmb.Bounded used) {size : Nat} (some_size : 0 < size) (align : Nat)
include bounded some_size

theorem alloc_below_returns (lmbbase : Nat) {rounds base : Nat} (enough : base ≤ rounds) :
    ∃ found, Lmb.alloc_below used lmbbase size align rounds base = some found ∧
      ∀ b ∈ found, lmb_overlap_checks used b size LMB_NOOVERWRITE true = none := by
  induction rounds generalizing base with
  | zero =>
    refine ⟨none,?_,by simp⟩
    rw [Lmb.alloc_below,if_neg (by omega)]
  | succ rounds ih =>
    rw [Lmb.alloc_below]
    by_cases inside : base ≠ 0 ∧ lmbbase ≤ base
    · rw [if_pos inside]
      cases checked : lmb_overlap_checks used base size LMB_NOOVERWRITE true with
      | none => exact ⟨some base,rfl,by rintro _ ⟨⟩; exact checked⟩
      | some i =>
        obtain ⟨member,overlap⟩ := Lmb.overlap_checks_some checked
        have bound := bounded _ member
        simp only
        by_cases small : (rgn used i).base < size
        · rw [if_pos small]
          exact ⟨none,rfl,by simp⟩
        rw [if_neg small]
        have base_bound : (rgn used i).base < 2^64 := by simp only [Interval.stop] at bound; omega
        have reaches : (rgn used i).base ≤ sub64 (add64 base size) 1 := by
          simp only [lmb_addrs_overlap,decide_eq_true_eq] at overlap
          exact overlap.2
        have last : sub64 (add64 base size) 1 ≤ base+size-1 := by
          rw [sub64,add64]
          omega
        have lower := Lmb.align_down_le (sub64 (rgn used i).base size) align
        rw [Lmb.sub64_eq (by omega) base_bound] at lower ⊢
        exact ih (by omega)
    · rw [if_neg inside]
      exact ⟨none,rfl,by simp⟩

theorem alloc_search_returns (max_addr : Nat) (available : List Region) :
    ∃ found, alloc_search used size align max_addr available = some found ∧
      ∀ b ∈ found, lmb_overlap_checks used b size LMB_NOOVERWRITE true = none := by
  induction available with
  | nil => exact ⟨none,rfl,by simp⟩
  | cons r rest ih =>
    rw [alloc_search]
    cases Lmb.alloc_start r size align max_addr with
    | none => exact ih
    | some start =>
      obtain ⟨found,returns,checked⟩ := alloc_below_returns bounded some_size align r.base (le_refl start)
      simp only [returns]
      cases found with
      | none => exact ih
      | some base => exact ⟨some base,rfl,checked⟩

end searching

/-- The books with a range entered in the list of regions in use. -/
def entered (b : Books) (base size : Nat) (memory : Bool) : Books :=
  with_used b (lmb_add_region_flags b.lmb.used_mem base size flags memory).2

/-- What the memory blocks answer: an error where nothing is picked, the start of
    the range where the list takes it, and otherwise an error for a range named by
    its address and none for one that was searched. -/
inductive Answered (b : Books) (a : Asked) (out : Outside) : Int × Nat × Books → Prop
  | refused (nothing : picked b.lmb a = none) (err : Int) (failure : err ≠ 0) (addr : Nat) : Answered b a out (err,addr,b)
  | taken (base : Nat) (picks : base ∈ picked b.lmb a) (enters : Entered b.lmb base a.size out.memory) :
      Answered b a out (0,base,entered b base a.size out.memory)
  | untaken (base : Nat) (picks : base ∈ picked b.lmb a) (stuck : ¬ Entered b.lmb base a.size out.memory) (err : Int)
      (code : err = 0 ↔ a.type ≠ .addr) : Answered b a out (err,a.left,entered b base a.size out.memory)

theorem picked_cases {lmb : Lmb} {a : Asked} {base : Nat} (picks : base ∈ picked lmb a) :
    (a.type ≠ .addr ∧ ∃ max_addr, base ∈
        (alloc_search lmb.used_mem.regions a.size a.align max_addr lmb.available_mem.regions.reverse).join) ∨
      a.type = .addr ∧ a.addr = base ∧ lmb_overlap_checks lmb.used_mem.regions a.addr a.size flags false = none := by
  rw [picked] at picks
  cases typed : a.type with
  | any | max => exact .inl ⟨by simp,_,by simpa only [typed] using picks⟩
  | addr =>
    simp only [typed] at picks
    cases located : lmb_overlap_checks lmb.available_mem.regions a.addr a.size LMB_NOOVERWRITE true with
    | none => simp [located] at picks
    | some i =>
      simp only [located] at picks
      split_ifs at picks with accepted
      · exact .inr ⟨rfl,by simpa using picks,accepted.2⟩
      · simp at picks

section picking
variable {b : Books} (sound : Sound b.lmb) {a : Asked} (some_size : 0 < a.size)
include sound some_size

theorem picked_clear {base : Nat} (picks : base ∈ picked b.lmb a) (fits : base+a.size < 2^64) :
    Lmb.Clear b.lmb.used_mem.regions base (base+a.size) := by
  rcases picked_cases picks with ⟨-,max_addr,found⟩ | ⟨-,rfl,clear⟩
  · obtain ⟨found',returns,checked⟩ := alloc_search_returns sound.used.bounded some_size a.align max_addr
      b.lmb.available_mem.regions.reverse
    rw [returns] at found
    exact Lmb.overlap_checks_clear sound.used.apart sound.used.bounded some_size fits (checked base found)
  · intro r member
    by_contra meets
    have plain := Lmb.overlap_checks_plain sound.used.apart sound.used.bounded some_size fits clear r member
      (by omega) (by omega)
    simp [flags,LMB_NOOVERWRITE,LMB_NONOTIFY,Lmb.LMB_NONE] at plain

theorem picked_page (pages : if a.type = .addr then EFI_PAGE_SIZE ∣ a.addr else a.align = EFI_PAGE_SIZE) {base : Nat}
    (picks : base ∈ picked b.lmb a) : EFI_PAGE_SIZE ∣ base := by
  rcases picked_cases picks with ⟨searched,max_addr,found⟩ | ⟨typed,rfl,-⟩
  · obtain ⟨found',returns,_⟩ := alloc_search_returns sound.used.bounded some_size a.align max_addr
      b.lmb.available_mem.regions.reverse
    rw [returns] at found
    rw [show found' = some base from found] at returns
    obtain ⟨x,rfl⟩ := Lmb.alloc_search_aligned returns
    rw [if_neg searched] at pages
    rw [pages]
    exact EfiLmb.align_down_page x
  · rwa [if_pos typed] at pages

theorem alloc_mem_answered (out : Outside) :
    ∃ result, lmb_alloc_mem b a.type a.align a.addr a.size flags out = some result ∧ Answered b a out result := by
  have silent (b : Books) (base : Nat) := @EfiLmb.notify_silent b base a.size _ EfiLmb.efi_flags_silent .reserve out
  have search (max_addr : Nat) (same : max_addr = a.left) (searched : a.type ≠ .addr)
      (picks : picked b.lmb a =
        (alloc_search b.lmb.used_mem.regions a.size a.align max_addr b.lmb.available_mem.regions.reverse).join) :
      ∃ result, EfiLmb._lmb_alloc_base b a.size a.align max_addr flags out = some result ∧ Answered b a out result := by
    obtain ⟨found,returns,_⟩ := alloc_search_returns sound.used.bounded some_size a.align max_addr
      b.lmb.available_mem.regions.reverse
    rw [returns] at picks
    rw [EfiLmb._lmb_alloc_base,returns]
    cases found with
    | none => exact ⟨_,rfl,.refused picks _ (by simp) _⟩
    | some base =>
      have picked_base : base ∈ picked b.lmb a := picks
      simp only
      by_cases enters : Entered b.lmb base a.size out.memory
      · refine ⟨_,?_,.taken base picked_base enters⟩
        rw [Entered] at enters
        rw [if_neg (not_not.mpr enters),silent]
        rfl
      · refine ⟨_,?_,.untaken base picked_base enters 0 (by simp [searched])⟩
        rw [Entered] at enters
        rw [if_pos enters,same]
        rfl
  unfold EfiLmb.lmb_alloc_mem
  rw [if_neg (ne_of_gt some_size)]
  cases typed : a.type with
  | any => exact search LMB_ALLOC_ANYWHERE (by simp [Asked.left,typed]) (by simp [typed]) (by simp only [picked,typed])
  | max => exact search a.addr (by simp [Asked.left,typed]) (by simp [typed]) (by simp only [picked,typed])
  | addr =>
    have picks : picked b.lmb a = _ := picked.eq_def ..
    simp only [typed] at picks ⊢
    rw [EfiLmb._lmb_alloc_addr]
    cases located : lmb_overlap_checks b.lmb.available_mem.regions a.addr a.size LMB_NOOVERWRITE true with
    | none =>
      rw [located] at picks
      exact ⟨_,rfl,.refused picks (-Lmb.EFAULT) (by simp [Lmb.EFAULT]) a.addr⟩
    | some i =>
      rw [located] at picks
      simp only at picks ⊢
      by_cases ends : lmb_addrs_overlap (rgn b.lmb.available_mem.regions i).base
          (rgn b.lmb.available_mem.regions i).size (sub64 (add64 a.addr a.size) 1) 1 = true
      · rw [if_pos ends,EfiLmb.lmb_reserve]
        cases checked : lmb_overlap_checks b.lmb.used_mem.regions a.addr a.size flags false with
        | some i =>
          rw [if_neg (by simp [checked])] at picks
          exact ⟨_,rfl,.refused picks (-Lmb.EEXIST) (by simp [Lmb.EEXIST]) a.addr⟩
        | none =>
          rw [if_pos ⟨ends,checked⟩] at picks
          have picked_base : a.addr ∈ picked b.lmb a := picks
          simp only
          by_cases enters : Entered b.lmb a.addr a.size out.memory
          · refine ⟨_,?_,.taken a.addr picked_base enters⟩
            rw [Entered] at enters
            rw [if_neg (not_not.mpr enters),silent]
            rfl
          · have same : a.left = a.addr := by simp [Asked.left,typed]
            refine ⟨_,?_,.untaken a.addr picked_base enters _ (iff_of_false enters (by simp [typed]))⟩
            rw [Entered] at enters
            rw [if_pos enters,same]
            rfl
      · rw [if_neg ends]
        rw [if_neg (fun both => ends both.1)] at picks
        exact ⟨_,rfl,.refused picks (-Lmb.EINVAL) (by simp [Lmb.EINVAL]) a.addr⟩

end picking
theorem allocate_asked (b : Books) (call : Call) :
    (asked call = none ∧ ∃ status memory, efi_allocate_pages b call = some (status,memory,b)) ∨
    ∃ a start, asked call = some a ∧ a.size = call.pages*EFI_PAGE_SIZE ∧ a.addr < 2^64 ∧
      (if a.type = .addr then EFI_PAGE_SIZE ∣ a.addr else a.align = EFI_PAGE_SIZE) ∧
      efi_allocate_pages b call =
        match lmb_alloc_mem b a.type a.align a.addr a.size flags call.out with
        | none => none
        | some (err,efi_addr,b) =>
          if err ≠ 0 then some (refusal call.type,some start.toNat,b)
          else update_or_bail b call start efi_addr a.size := by
  rw [asked,efi_allocate_pages.eq_def]
  by_cases reserved_type : EFI_PERSISTENT_MEMORY_TYPE ≤ call.memory_type ∧ call.memory_type ≤ 0x6FFFFFFF
  · rw [if_pos reserved_type,if_pos reserved_type]
    exact .inl ⟨rfl,_,_,rfl⟩
  rw [if_neg reserved_type,if_neg reserved_type]
  cases call.memory with
  | none => exact .inl ⟨rfl,_,_,rfl⟩
  | some start =>
    simp only
    by_cases overflows : call.pages*EFI_PAGE_SIZE%2^64/EFI_PAGE_SIZE ≠ call.pages
    · rw [if_pos overflows,if_pos overflows]
      exact .inl ⟨rfl,_,_,rfl⟩
    rw [if_neg overflows,if_neg overflows]
    have whole : call.pages*EFI_PAGE_SIZE%2^64 = call.pages*EFI_PAGE_SIZE := by
      rw [page_size] at *
      omega
    rw [whole]
    cases requested : request call.type start.toNat call.out.garbage.toNat with
    | error status => exact .inl ⟨rfl,_,_,rfl⟩
    | ok answer =>
      obtain ⟨type,align,addr⟩ := answer
      have proper : addr < 2^64 ∧ (if type = .addr then EFI_PAGE_SIZE ∣ addr else align = EFI_PAGE_SIZE) := by
        cases typed : call.type with
        | any_pages =>
          rw [typed] at requested
          cases requested
          exact ⟨call.out.garbage.toNat_lt,by simp⟩
        | max_address =>
          rw [typed] at requested
          cases requested
          exact ⟨start.toNat_lt,by simp⟩
        | address =>
          rw [typed,request] at requested
          split_ifs at requested with unaligned
          cases requested
          exact ⟨start.toNat_lt,by simpa using Nat.dvd_of_mod_eq_zero (not_not.mp unaligned)⟩
        | other =>
          rw [typed] at requested
          cases requested
      exact .inr ⟨⟨type,align,addr,call.pages*EFI_PAGE_SIZE⟩,start,rfl,rfl,proper.1,proper.2,rfl⟩

/-- The call returns; if it fails, the map gives every page the type that it gave
    before, and the same bytes are in use. -/
def Returns (b : Books) (result : Option (Status × Option Nat × Books)) : Prop :=
  ∃ status memory after, result = some (status,memory,after) ∧
    (status ≠ .EFI_SUCCESS → SameTypes b.efi_mem after.efi_mem ∧
      SameBytes b.lmb.used_mem.regions after.lmb.used_mem.regions)

def Keeps (b : Books) (call : Call) : Prop := Returns b (efi_allocate_pages b call)

/-- The books as the calls keep them: lists apart and in order, and none longer
    than it has place for. -/
structure Steady (b : Books) : Prop where
  sound : Sound b.lmb
  stocked : b.lmb.used_mem.regions.length ≤ b.lmb.used_mem.alloc
  canonical : Canonical b.efi_mem

theorem returns_same (b : Books) (status : Status) (memory : Option Nat) : Returns b (some (status,memory,b)) :=
  ⟨status,memory,b,rfl,fun _ => ⟨fun _ => rfl,fun _ => Iff.rfl⟩⟩

/-- The range that a search picks does not wrap, nor does the one that it leaves
    where the list does not take the first. -/
def Straight (b : Books) (call : Call) (a : Asked) : Prop :=
  0 < a.size → ∀ base ∈ picked b.lmb a, base+a.size < 2^64 ∧
    (Entered b.lmb base a.size call.out.memory ∨ a.type = .addr ∨ EFI_PAGE_SIZE ∣ a.left ∧ a.left+a.size < 2^64)

/-- The update describes the range of a call, or does not get to carve it. -/
def Call.Describes (call : Call) (b : Books) (base : Nat) : Prop :=
  Described b.efi_mem base call.pages (int_of call.memory_type) call.out.calloc call.split

def Call.Spares (call : Call) (b : Books) (base : Nat) : Prop :=
  Spared b.efi_mem base call.pages (int_of call.memory_type) call.out.calloc call.split

/-- The end of the call changes nothing where it fails. No bytes are given back
    without harm unless a list that has failed to grow is cut. A range that was
    taken can be described, or is not carved and leaves no region behind that is
    lost; one that was not taken can be described, or is neither carved nor in
    use. -/
def Harmless (b : Books) (call : Call) (a : Asked) : Prop :=
  (a.size = 0 → int_of call.memory_type < EFI_MAX_MEMORY_TYPE ∨
    ¬ (b.lmb.used_mem.fail = true ∧ ∃ r ∈ b.lmb.used_mem.regions, r.base < a.addr ∧ a.addr < r.stop)) ∧
  (0 < a.size → ∀ base ∈ picked b.lmb a,
    (Entered b.lmb base a.size call.out.memory → call.Describes b base ∨
      call.Spares b base ∧ ¬ Severed b.lmb.used_mem.regions base (base+a.size) flags) ∧
    (¬ Entered b.lmb base a.size call.out.memory → a.type ≠ .addr → call.Describes b a.left ∨
      call.Spares b a.left ∧ ¬ Held b.lmb.used_mem.regions a.left (a.left+a.size)))

section ending
variable {b : Books} (steady : Steady b) (call : Call) (start : UInt64) (used : Alist) {addr : Nat}

include steady in
theorem update_or_bail_iff (some_pages : 0 < call.pages) (aligned : EFI_PAGE_SIZE ∣ addr)
    (fits : addr+call.pages*EFI_PAGE_SIZE < 2^64) :
    Returns b (update_or_bail (with_used b used) call start addr (call.pages*EFI_PAGE_SIZE)) ↔
      call.Describes b addr ∨ call.Spares b addr ∧ SameBytes b.lmb.used_mem.regions
        (Lmb._lmb_free used addr (call.pages*EFI_PAGE_SIZE) call.out.memory).2.regions := by
  obtain ⟨status,after,updates,success_iff,same_iff⟩ := update_described steady.canonical some_pages aligned fits
    (int_of call.memory_type) call.out.calloc call.split
  have updated : efi_update_memory_map (with_used b used).efi_mem addr call.pages (int_of call.memory_type) true false
      call.out.calloc call.split = some (status,after) := updates
  rw [update_or_bail,updated]
  simp only
  by_cases success : status = .EFI_SUCCESS
  · rw [if_neg (not_not.mpr success)]
    exact iff_of_true ⟨_,_,_,rfl,fun failure => absurd rfl failure⟩ (.inl (success_iff.mp success))
  obtain ⟨ret,frees⟩ := @EfiLmb.lmb_free_silent (with_map (with_used b used) after) addr (call.pages*EFI_PAGE_SIZE) flags
    EfiLmb.efi_flags_silent call.out
  rw [if_pos success,frees]
  have undescribed : ¬ call.Describes b addr := fun described => success (success_iff.mpr described)
  have failure : refusal call.type ≠ .EFI_SUCCESS := by
    rw [refusal]
    split_ifs <;> simp
  rw [or_iff_right undescribed]
  constructor
  · rintro ⟨_,_,_,same,keeps⟩
    obtain ⟨rfl,rfl,rfl⟩ := by simpa using same
    obtain ⟨types,bytes⟩ := keeps failure
    exact ⟨(same_iff success).mp types,bytes⟩
  · rintro ⟨spared,bytes⟩
    exact ⟨_,_,_,rfl,fun _ => ⟨(same_iff success).mpr spared,bytes⟩⟩

theorem update_or_bail_empty (none_ : call.pages = 0) :
    Returns b (update_or_bail b call start addr 0) ↔ int_of call.memory_type < EFI_MAX_MEMORY_TYPE ∨
      SameBytes b.lmb.used_mem.regions (Lmb._lmb_free b.lmb.used_mem addr 0 call.out.memory).2.regions := by
  rw [update_or_bail,efi_update_memory_map]
  by_cases unknown : int_of call.memory_type ≥ EFI_MAX_MEMORY_TYPE
  · obtain ⟨ret,frees⟩ := @EfiLmb.lmb_free_silent (with_map b b.efi_mem) addr 0 flags EfiLmb.efi_flags_silent call.out
    rw [if_pos unknown]
    simp only
    rw [if_pos (by simp),frees,or_iff_right (by omega)]
    have failure : refusal call.type ≠ .EFI_SUCCESS := by
      rw [refusal]
      split_ifs <;> simp
    constructor
    · rintro ⟨_,_,_,same,keeps⟩
      obtain ⟨rfl,rfl,rfl⟩ := by simpa using same
      exact (keeps failure).2
    · intro bytes
      exact ⟨_,_,_,rfl,fun _ => ⟨fun _ => rfl,bytes⟩⟩
  · rw [if_neg unknown,if_pos none_]
    simp only
    rw [if_neg (by simp)]
    exact iff_of_true ⟨_,_,_,rfl,fun failure => absurd rfl failure⟩ (.inl (by omega))

end ending
/-- What becomes of a call that asks the memory blocks for a range. -/
theorem keeps_iff {b : Books} (steady : Steady b) {call : Call} {a : Asked} (asks : asked call = some a)
    (straight : Straight b call a) : Keeps b call ↔ Harmless b call a := by
  rcases allocate_asked b call with ⟨none_,_⟩ | ⟨a',start,same,size,address,page,allocates⟩
  · rw [asks] at none_
    cases none_
  obtain rfl : a = a' := Option.some.inj (asks.symm.trans same)
  rw [Keeps,allocates]
  by_cases empty : a.size = 0
  · have none_ : call.pages = 0 := by
      rw [size,page_size] at empty
      omega
    unfold EfiLmb.lmb_alloc_mem
    rw [if_pos empty,empty]
    simp only
    rw [if_neg (by simp),update_or_bail_empty call start none_,
      Lmb.freed_empty_iff steady.sound.used address call.out.memory,Harmless,empty]
    simp
  have some_size : 0 < a.size := Nat.pos_of_ne_zero empty
  have some_pages : 0 < call.pages := by
    rw [size,page_size] at some_size
    omega
  obtain ⟨result,answers,answered⟩ := alloc_mem_answered steady.sound some_size call.out
  rw [answers]
  have harmless_iff : Harmless b call a ↔ ∀ base ∈ picked b.lmb a,
      (Entered b.lmb base a.size call.out.memory → call.Describes b base ∨
        call.Spares b base ∧ ¬ Severed b.lmb.used_mem.regions base (base+a.size) flags) ∧
      (¬ Entered b.lmb base a.size call.out.memory → a.type ≠ .addr → call.Describes b a.left ∨
        call.Spares b a.left ∧ ¬ Held b.lmb.used_mem.regions a.left (a.left+a.size)) := by
    simp [Harmless,empty,some_size]
  rw [harmless_iff]
  cases answered with
  | refused nothing err failure addr =>
    simp only
    rw [if_pos failure]
    exact iff_of_true (returns_same b _ _) (by simp [nothing])
  | taken base picks enters =>
    obtain ⟨fits,_⟩ := straight some_size base picks
    have clear := picked_clear steady.sound some_size picks fits
    have aligned := picked_page steady.sound some_size page picks
    have only : ∀ base' ∈ picked b.lmb a, base' = base := fun base' other =>
      Option.some.inj (other.symm.trans picks)
    have undone := Lmb.added_freed_iff steady.sound.used ⟨some_size,fits⟩ clear enters steady.stocked
    simp only
    rw [if_neg (by simp),entered,size,update_or_bail_iff steady call start _ some_pages aligned (size ▸ fits),← size,undone]
    constructor
    · intro ends base' other
      rw [only base' other]
      exact ⟨fun _ => ends,fun stuck => absurd enters stuck⟩
    · intro ends
      exact (ends base picks).1 enters
  | untaken base picks stuck err code =>
    obtain ⟨fits,direct⟩ := straight some_size base picks
    have clear := picked_clear steady.sound some_size picks fits
    have only : ∀ base' ∈ picked b.lmb a, base' = base := fun base' other =>
      Option.some.inj (other.symm.trans picks)
    have same_regions := Lmb.add_region_flags_failed steady.sound.used ⟨some_size,fits⟩
      (Lmb.clear_plain clear) call.out.memory stuck
    simp only
    by_cases named : a.type = .addr
    · rw [if_pos (fun zero => code.mp zero named)]
      refine iff_of_true ⟨_,_,_,rfl,fun _ => ⟨fun _ => rfl,?_⟩⟩ (fun base' other => ?_)
      · exact SameBytes.of_eq (congrArg value same_regions)
      · rw [only base' other]
        exact ⟨fun enters => absurd enters stuck,fun _ searched => absurd named searched⟩
    obtain ⟨aligned,fits'⟩ := (direct.resolve_left stuck).resolve_left named
    have placed : Placed (lmb_add_region_flags b.lmb.used_mem base a.size flags call.out.memory).2.regions := by
      rw [same_regions]
      exact steady.sound.used
    have undone := Lmb.freed_iff placed some_size (le_of_lt fits') call.out.memory
    rw [same_regions] at undone
    rw [if_neg (not_not.mpr (code.mpr named)),entered,size,
      update_or_bail_iff steady call start _ some_pages aligned (size ▸ fits'),← size,undone]
    constructor
    · intro ends base' other
      rw [only base' other]
      exact ⟨fun enters => absurd enters stuck,fun _ _ => ends⟩
    · intro ends
      exact (ends base picks).2 stuck named

/-- A failed call changes nothing where its range does not wrap and its end is
    harmless; and where the range does not wrap, it changes something otherwise. -/
theorem failed_call_keeps {b : Books} (steady : Steady b) (call : Call) :
    ((∀ a ∈ asked call, Straight b call a ∧ Harmless b call a) → Keeps b call) ∧
      ((∀ a ∈ asked call, Straight b call a) → Keeps b call → ∀ a ∈ asked call, Harmless b call a) := by
  cases asks : asked call with
  | none =>
    rcases allocate_asked b call with ⟨_,status,memory,returns⟩ | ⟨a,_,same,_⟩
    · have keeps : Keeps b call := by
        rw [Keeps,returns]
        exact returns_same b status memory
      exact ⟨fun _ => keeps,fun _ _ => by simp⟩
    · rw [asks] at same
      cases same
  | some a =>
    constructor
    · intro both
      obtain ⟨straight,harmless⟩ := both a rfl
      exact (keeps_iff steady asks straight).mpr harmless
    · rintro straight keeps a ⟨⟩
      exact (keeps_iff steady asks (straight _ rfl)).mp keeps

/-- Memory whose lowest four pages are described as reserved: the rest of the bank
    is conventional memory. -/
def reserved_below : Books :=
  Runs.run EfiLmb.step EfiLmb.start [⟨.add 0x10000 0x10000,⟨true,true,0⟩⟩,⟨.init 0x10000 4 0,⟨true,true,0⟩⟩]

theorem reserved_below_steady : Steady reserved_below := by
  have inv : EfiLmb.Inv reserved_below :=
    Runs.invariant (fun _ _ => EfiLmb.inv_step) EfiLmb.inv_start (by decide +kernel)
  exact ⟨inv.sound,by decide +kernel,inv.canonical⟩

/-- Two of the reserved pages, asked for by their address. -/
theorem reserved_pages_keep :
    Keeps reserved_below ⟨.address,4,2,some 0x10000,⟨true,true,0⟩,true⟩ := by
  refine (failed_call_keeps reserved_below_steady _).1 ?_
  have asks : asked ⟨.address,4,2,some 0x10000,⟨true,true,0⟩,true⟩ = some ⟨.addr,0,0x10000,0x2000⟩ := rfl
  have picks : picked reserved_below.lmb ⟨.addr,0,0x10000,0x2000⟩ = some 0x10000 := by decide +kernel
  have enters : Entered reserved_below.lmb 0x10000 0x2000 true := by decide +kernel
  have unused : reserved_below.lmb.used_mem.regions = [] := by decide +kernel
  have first : first_met reserved_below.efi_mem 0x10000 2 = some ⟨0,0x10000,4,8⟩ := by decide +kernel
  rw [asks]
  rintro a ⟨⟩
  refine ⟨fun _ => ?_,fun empty => by simp at empty,fun _ => ?_⟩
  · rw [picks]
    rintro base ⟨⟩
    exact ⟨by simp,.inl enters⟩
  · rw [picks]
    rintro base ⟨⟩
    refine ⟨fun _ => .inr ⟨.inr (.inr ?_),?_⟩,fun stuck => absurd enters stuck⟩
    · rw [first]
      rintro d ⟨⟩
      exact .inl (by simp [EFI_CONVENTIONAL_MEMORY,EfiMemory.EFI_CONVENTIONAL_MEMORY])
    · rw [unused]
      rintro ⟨before,a,b,c,s,after,split,_⟩
      simp at split

/-- Two conventional pages above two reserved ones are gone from the map after a
    call that fails. -/
theorem failed_call_carves : ¬ ∀ (b : Books) (call : Call), Steady b → Keeps b call := by
  intro claim
  have keeps := claim reserved_below ⟨.address,4,4,some 0x12000,⟨true,true,0⟩,true⟩ reserved_below_steady
  obtain ⟨status,memory,after,returns,same⟩ := keeps
  have outcome : (efi_allocate_pages reserved_below ⟨.address,4,4,some 0x12000,⟨true,true,0⟩,true⟩).map
      (fun result => (result.1,page_type result.2.2.efi_mem 0x15)) = some (.EFI_NOT_FOUND,none) := by decide +kernel
  have before : page_type reserved_below.efi_mem 0x15 = some 7 := by decide +kernel
  rw [returns] at outcome
  simp only [Option.map_some,Option.some.injEq,Prod.mk.injEq] at outcome
  have types := (same (by simp [outcome.1])).1 0x15
  rw [outcome.2,before] at types
  cases types

end UBoot.EfiPagesUndo
