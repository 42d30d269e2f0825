import UBoot.EfiMemory
import UBoot.LmbRuns

/-!
The two books on memory: the memory blocks of `lib/lmb.c`, in bytes, and the EFI memory map of
`lib/efi_loader/efi_memory.c`, in pages. Changes of the first are told to the second by
`efi_map_update_notify`, which takes every page that a range touches; the allocations of EFI itself
change both and tell nothing.
-/
namespace UBoot.EfiLmb
open UBoot.Intervals UBoot.Runs List Option
open UBoot.EfiMemory (Desc Status Covers EFI_PAGE_SIZE EFI_BOOT_SERVICES_DATA EFI_CONVENTIONAL_MEMORY
  EFI_PERSISTENT_MEMORY_TYPE EFI_MAX_MEMORY_TYPE desc_get_end efi_update_memory_map type_of attribute_of page_map page_size)
open UBoot.Lmb (Lmb Region Alist MemType EFAULT EEXIST EINVAL LMB_NONE LMB_NOOVERWRITE LMB_ALLOC_ANYWHERE add64 sub64
  lmb_addrs_overlap rgn lmb_overlap_checks lmb_add_region_flags alloc_search lmb_setup Sound Proper LimitHolds HasRoom)

def LMB_NONOTIFY : Nat := 8

inductive MapOp where
  | reserve
  | free
  | add
  deriving DecidableEq, Repr

/-- `enum efi_allocate_type`; the type is an integer that a caller may set to
    something else. -/
inductive AllocateType where
  | any_pages
  | max_address
  | address
  | other
  deriving DecidableEq, Repr

/-- What a call meets outside: whether a full list can grow, whether an entry of
    the map can be allocated, and what a local variable holds at first. -/
structure Outside where
  memory : Bool
  calloc : Bool
  garbage : UInt64

structure Books where
  lmb : Lmb
  efi_mem : List Desc

def with_used (b : Books) (used : Alist) : Books := { b with lmb := { b.lmb with used_mem := used } }

def with_map (b : Books) (efi_mem : List Desc) : Books := { b with efi_mem := efi_mem }

def efi_size_in_pages (size : Nat) : Nat := add64 size (EFI_PAGE_SIZE-1)/EFI_PAGE_SIZE

def efi_map_update_notify (efi_mem : List Desc) (addr size : Nat) (op : MapOp) (calloc : Bool) :
    Option (Int × List Desc) :=
  let pages := efi_size_in_pages (add64 size (addr%EFI_PAGE_SIZE))
  let efi_addr := addr/EFI_PAGE_SIZE*EFI_PAGE_SIZE
  let type := if op = .reserve then EFI_BOOT_SERVICES_DATA else EFI_CONVENTIONAL_MEMORY
  (efi_update_memory_map efi_mem efi_addr pages type false false calloc).map fun (status,efi_mem) =>
    (if status = .EFI_SUCCESS then 0 else -1,efi_mem)

def lmb_map_update_notify (b : Books) (addr size : Nat) (op : MapOp) (flags : Nat) (out : Outside) :
    Option (Int × Books) :=
  if flags &&& LMB_NONOTIFY = 0 then
    (efi_map_update_notify b.efi_mem addr size op out.calloc).map fun (ret,efi_mem) => (ret,with_map b efi_mem)
  else some (0,b)

def lmb_add (b : Books) (base size : Nat) (out : Outside) : Option (Int × Books) :=
  let (ret,available) := lmb_add_region_flags b.lmb.available_mem base size LMB_NONE out.memory
  let b := { b with lmb := { b.lmb with available_mem := available } }
  if ret ≠ 0 then some (ret,b) else lmb_map_update_notify b base size .add LMB_NONE out

def lmb_reserve (b : Books) (base size flags : Nat) (out : Outside) : Option (Int × Books) :=
  match lmb_overlap_checks b.lmb.used_mem.regions base size flags false with
  | some _ => some (-EEXIST,b)
  | none =>
    let (ret,used) := lmb_add_region_flags b.lmb.used_mem base size flags out.memory
    let b := with_used b used
    if ret ≠ 0 then some (ret,b) else lmb_map_update_notify b base size .reserve flags out

def lmb_free (b : Books) (base size flags : Nat) (out : Outside) : Option (Int × Books) :=
  let (ret,used) := UBoot.Lmb._lmb_free b.lmb.used_mem base size out.memory
  let b := with_used b used
  if ret < 0 then some (ret,b) else lmb_map_update_notify b base size .free flags out

def _lmb_alloc_base (b : Books) (size align addr flags : Nat) (out : Outside) : Option (Int × Nat × Books) :=
  match alloc_search b.lmb.used_mem.regions size align addr b.lmb.available_mem.regions.reverse with
  | none => none
  | some none => some (-1,addr,b)
  | some (some base) =>
    let (ret,used) := lmb_add_region_flags b.lmb.used_mem base size flags out.memory
    let b := with_used b used
    if ret ≠ 0 then some (0,addr,b)
    else
      (lmb_map_update_notify b base size .reserve flags out).map fun (ret,b) =>
        if ret ≠ 0 then (ret,addr,b) else (0,base,b)

def _lmb_alloc_addr (b : Books) (base size flags : Nat) (out : Outside) : Option (Int × Books) :=
  match lmb_overlap_checks b.lmb.available_mem.regions base size LMB_NOOVERWRITE true with
  | none => some (-EFAULT,b)
  | some i =>
    let r := rgn b.lmb.available_mem.regions i
    if lmb_addrs_overlap r.base r.size (sub64 (add64 base size) 1) 1 then lmb_reserve b base size flags out
    else some (-EINVAL,b)

/-- The return code, `*addr` after the call, and the books. -/
def lmb_alloc_mem (b : Books) (type : MemType) (align addr size flags : Nat) (out : Outside) :
    Option (Int × Nat × Books) :=
  if size = 0 then some (0,addr,b)
  else
    match type with
    | .any => _lmb_alloc_base b size align LMB_ALLOC_ANYWHERE flags out
    | .max => _lmb_alloc_base b size align addr flags out
    | .addr => (_lmb_alloc_addr b addr size flags out).map fun (ret,b) => (ret,addr,b)

def efi_check_allocated (addr : Nat) (must_be_allocated : Bool) : List Desc → Status
  | [] => .EFI_NOT_FOUND
  | item :: rest =>
    if item.physical_start ≤ addr ∧ addr < desc_get_end item then
      if must_be_allocated ^^ (item.type = EFI_CONVENTIONAL_MEMORY) then .EFI_SUCCESS else .EFI_NOT_FOUND
    else efi_check_allocated addr must_be_allocated rest

/-- An `enum efi_memory_type`, which is unsigned, as an `int`. -/
def int_of (memory_type : Nat) : Int := if memory_type < 2^31 then memory_type else (memory_type : Int)-2^32

/-- The request to the memory blocks: the type, the alignment and the address. -/
def request (type : AllocateType) (memory garbage : Nat) : Except Status (MemType × Nat × Nat) :=
  match type with
  | .any_pages => .ok (.any,EFI_PAGE_SIZE,garbage)
  | .max_address => .ok (.max,EFI_PAGE_SIZE,memory)
  | .address => if memory%EFI_PAGE_SIZE ≠ 0 then .error .EFI_NOT_FOUND else .ok (.addr,0,memory)
  | .other => .error .EFI_INVALID_PARAMETER

/-- The status when the request fails, or when the map refuses the pages. -/
def refusal (type : AllocateType) : Status := if type = .address then .EFI_NOT_FOUND else .EFI_OUT_OF_RESOURCES

/-- The status, `*memory` after the call and the books; `memory` may be `NULL`. -/
def efi_allocate_pages (b : Books) (type : AllocateType) (memory_type pages : Nat) (memory : Option UInt64)
    (out : Outside) : Option (Status × Option Nat × Books) :=
  if EFI_PERSISTENT_MEMORY_TYPE ≤ memory_type ∧ memory_type ≤ 0x6FFFFFFF then some (.EFI_INVALID_PARAMETER,memory.map UInt64.toNat,b)
  else
    match memory with
    | none => some (.EFI_INVALID_PARAMETER,none,b)
    | some start =>
      let len := pages*EFI_PAGE_SIZE%2^64
      if len/EFI_PAGE_SIZE ≠ pages then some (.EFI_OUT_OF_RESOURCES,some start.toNat,b)
      else
        let flags := LMB_NOOVERWRITE ||| LMB_NONOTIFY
        match request type start.toNat out.garbage.toNat with
        | .error status => some (status,some start.toNat,b)
        | .ok (lmb_type,align,addr) =>
          match lmb_alloc_mem b lmb_type align addr len flags out with
          | none => none
          | some (err,efi_addr,b) =>
            if err ≠ 0 then some (refusal type,some start.toNat,b)
            else
              match efi_update_memory_map b.efi_mem efi_addr pages (int_of memory_type) true false out.calloc with
              | none => none
              | some (ret,efi_mem) =>
                let b := with_map b efi_mem
                if ret ≠ .EFI_SUCCESS then
                  (lmb_free b efi_addr len flags out).map fun (_,b) => (refusal type,some start.toNat,b)
                else some (.EFI_SUCCESS,some efi_addr,b)

def efi_free_pages (b : Books) (memory pages : Nat) (out : Outside) : Option (Status × Books) :=
  let ret := efi_check_allocated memory true b.efi_mem
  if ret ≠ .EFI_SUCCESS then some (ret,b)
  else if memory = 0 ∨ memory%EFI_PAGE_SIZE ≠ 0 ∨ pages = 0 then some (.EFI_INVALID_PARAMETER,b)
  else
    (lmb_free b memory (pages*EFI_PAGE_SIZE%2^64) LMB_NOOVERWRITE out).map fun (status,b) =>
      (if status ≠ 0 then .EFI_NOT_FOUND else ret,b)

def Conventional (efi_mem : List Desc) (x : Nat) : Prop := ∃ attr, Covers efi_mem x (EFI_CONVENTIONAL_MEMORY,attr)

/-- What an update comes to for conventional memory: only an update to it makes
    more of it, and one to another type leaves none in its range. -/
structure Updated (efi_mem after : List Desc) (start stop : Nat) (memory_type : Int) (status : Status) : Prop where
  canonical : EfiMemory.Canonical after
  only : ∀ x, Conventional after x →
    Conventional efi_mem x ∨ (start ≤ x ∧ x < stop) ∧ type_of memory_type = EFI_CONVENTIONAL_MEMORY
  cleared : status = .EFI_SUCCESS → type_of memory_type ≠ EFI_CONVENTIONAL_MEMORY →
    ∀ x, Conventional after x → ¬ (start ≤ x ∧ x < stop)

/-- A range of pages that is empty, or starts at a page and ends at an address. -/
def PageRange (start pages : Nat) : Prop := pages = 0 ∨ EFI_PAGE_SIZE ∣ start ∧ start+pages*EFI_PAGE_SIZE < 2^64

theorem update_updated {efi_mem : List Desc} (canonical : EfiMemory.Canonical efi_mem) {start pages : Nat}
    (range : PageRange start pages) (memory_type : Int) (overlap_conventional calloc : Bool) :
    ∃ status after, efi_update_memory_map efi_mem start pages memory_type overlap_conventional false calloc =
        some (status,after) ∧
      Updated efi_mem after start (start+pages*EFI_PAGE_SIZE) memory_type status ∧
      (memory_type < EFI_MAX_MEMORY_TYPE → overlap_conventional = false → calloc = true → status = .EFI_SUCCESS) := by
  have unchanged (status : Status) (still : status = .EFI_SUCCESS → pages = 0) :
      Updated efi_mem efi_mem start (start+pages*EFI_PAGE_SIZE) memory_type status := by
    refine ⟨canonical,fun x old => .inl old,?_⟩
    intro success _ x _
    rw [still success]
    omega
  by_cases bounded : memory_type < EFI_MAX_MEMORY_TYPE
  · by_cases empty : pages = 0
    · refine ⟨.EFI_SUCCESS,efi_mem,?_,unchanged _ (fun _ => empty),fun _ _ _ => rfl⟩
      rw [efi_update_memory_map,if_neg (by omega),if_pos empty]
    cases calloc with
    | false =>
      refine ⟨.EFI_OUT_OF_RESOURCES,efi_mem,?_,unchanged _ (by simp),by simp⟩
      rw [efi_update_memory_map,if_neg (by omega),if_neg empty,if_pos rfl]
    | true =>
      obtain ⟨aligned,fits⟩ := range.resolve_left empty
      obtain ⟨status,after,updates,sorted,only,succeeds,covers⟩ := EfiMemory.update_spec canonical
        ⟨start,pages,memory_type,overlap_conventional,false,aligned,fits,bounded⟩
      refine ⟨status,after,updates,⟨sorted,?_,?_⟩,fun _ overlap _ => succeeds overlap⟩
      · rintro x ⟨attr,new⟩
        rcases only x _ new with old | ⟨inside,label⟩
        · exact .inl ⟨attr,old⟩
        · have pair : type_of memory_type = EFI_CONVENTIONAL_MEMORY ∧ attribute_of memory_type = attr := by
            simpa [EfiMemory.Call.label] using label
          exact .inr ⟨inside,pair.1⟩
      · rintro success other x ⟨attr,new⟩ inside
        have label := (covers success x _).mp new
        rw [if_pos inside] at label
        have pair : type_of memory_type = EFI_CONVENTIONAL_MEMORY ∧ attribute_of memory_type = attr := by
          simpa [EfiMemory.Call.label] using label
        exact other pair.1
  · refine ⟨.EFI_INVALID_PARAMETER,efi_mem,?_,unchanged _ (by simp),fun below => absurd below bounded⟩
    rw [efi_update_memory_map,if_pos (by omega)]

/-- The last page of the address space is not part of the memory. -/
def limit : Nat := 2^64-EFI_PAGE_SIZE

/-- The first address of the pages that a range touches, and the first behind
    them. -/
def pages_start (base : Nat) : Nat := base/EFI_PAGE_SIZE*EFI_PAGE_SIZE
def pages_stop (base size : Nat) : Nat :=
  base/EFI_PAGE_SIZE*EFI_PAGE_SIZE+(size+base%EFI_PAGE_SIZE+(EFI_PAGE_SIZE-1))/EFI_PAGE_SIZE*EFI_PAGE_SIZE

theorem pages_around (base size : Nat) : pages_start base ≤ base ∧ base+size ≤ pages_stop base size := by
  rw [pages_start,pages_stop,page_size]
  omega

theorem pages_stop_lt {base size : Nat} (fits : base+size ≤ limit) : pages_stop base size < 2^64 := by
  rw [limit,page_size] at fits
  rw [pages_stop,page_size]
  omega

theorem pages_whole {base pages : Nat} (aligned : base%EFI_PAGE_SIZE = 0) :
    pages_start base = base ∧ pages_stop base (pages*EFI_PAGE_SIZE) = base+pages*EFI_PAGE_SIZE := by
  rw [pages_start,pages_stop,page_size] at *
  omega

structure Told (efi_mem after : List Desc) (base size : Nat) (op : MapOp) : Prop where
  canonical : EfiMemory.Canonical after
  only : ∀ x, Conventional after x → Conventional efi_mem x ∨ (pages_start base ≤ x ∧ x < pages_stop base size) ∧ op ≠ .reserve

theorem notify_told {efi_mem : List Desc} (canonical : EfiMemory.Canonical efi_mem) {base size : Nat}
    (fits : base+size ≤ limit) (op : MapOp) (calloc : Bool) :
    ∃ ret after, efi_map_update_notify efi_mem base size op calloc = some (ret,after) ∧
      Told efi_mem after base size op ∧
      (calloc = true → op = .reserve → ∀ x, Conventional after x → ¬ (pages_start base ≤ x ∧ x < pages_stop base size)) := by
  have below := pages_stop_lt fits
  have sums : efi_size_in_pages (add64 size (base%EFI_PAGE_SIZE)) =
      (size+base%EFI_PAGE_SIZE+(EFI_PAGE_SIZE-1))/EFI_PAGE_SIZE := by
    rw [limit,page_size] at fits
    rw [efi_size_in_pages,page_size,Lmb.add64_eq (show size+base%4096 < 2^64 by omega),Lmb.add64_eq (by omega)]
  have range : PageRange (base/EFI_PAGE_SIZE*EFI_PAGE_SIZE)
      ((size+base%EFI_PAGE_SIZE+(EFI_PAGE_SIZE-1))/EFI_PAGE_SIZE) := .inr ⟨Nat.dvd_mul_left _ _,below⟩
  obtain ⟨status,after,updates,updated,succeeds⟩ := update_updated canonical range
    ((if op = .reserve then EFI_BOOT_SERVICES_DATA else EFI_CONVENTIONAL_MEMORY : Nat) : Int) false calloc
  refine ⟨if status = .EFI_SUCCESS then 0 else -1,after,?_,⟨updated.canonical,?_⟩,?_⟩
  · rw [efi_map_update_notify,sums]
    simp only [updates,map_some]
  · intro x new
    rcases updated.only x new with old | ⟨inside,type⟩
    · exact .inl old
    · refine .inr ⟨inside,?_⟩
      rintro rfl
      simp [type_of,EFI_BOOT_SERVICES_DATA,EFI_CONVENTIONAL_MEMORY] at type
  · rintro allocated rfl x new
    refine updated.cleared (succeeds ?_ rfl allocated) ?_ x new
    · decide
    · decide

def Listed (lst : List Region) (x : Nat) : Prop := value lst x ≠ none

theorem listed_iff {lst : List Region} (apart : Apart lst) {x : Nat} :
    Listed lst x ↔ ∃ r ∈ lst, r.base ≤ x ∧ x < r.stop := by
  constructor
  · intro listed
    by_contra clear
    refine listed (value_eq_none fun r member => ?_)
    by_contra inside
    exact clear ⟨r,member,by omega⟩
  · rintro ⟨r,member,inside⟩
    obtain ⟨before,after,rfl⟩ := append_of_mem member
    rw [Listed,value_inside apart inside]
    simp

/-- Both lists apart and below the last page, the map in order, and no byte both
    in use and conventional. -/
structure Inv (b : Books) : Prop where
  sound : Sound b.lmb
  available_limit : ∀ x, Listed b.lmb.available_mem.regions x → x < limit
  used_limit : ∀ x, Listed b.lmb.used_mem.regions x → x < limit
  canonical : EfiMemory.Canonical b.efi_mem
  agree : ∀ x, Listed b.lmb.used_mem.regions x → ¬ Conventional b.efi_mem x

section steps
variable {b : Books} (inv : Inv b)
include inv

theorem inv_fewer {used : Alist} {after : List Desc} (placed : Lmb.Placed used.regions)
    (fewer : ∀ x, Listed used.regions x → Listed b.lmb.used_mem.regions x) (canonical : EfiMemory.Canonical after)
    (only : ∀ x, Listed used.regions x → Conventional after x → Conventional b.efi_mem x) :
    Inv (with_map (with_used b used) after) where
  sound := ⟨inv.sound.available,placed,inv.sound.unflagged⟩
  available_limit := inv.available_limit
  used_limit x listed := inv.used_limit x (fewer x listed)
  canonical := canonical
  agree x listed new := inv.agree x (fewer x listed) (only x listed new)

theorem inv_reserved {base size flags : Nat} (proper : Proper base size) (fits : base+size ≤ limit)
    (plain : ∀ r ∈ b.lmb.used_mem.regions, r.base < base+size → base < r.stop → r.label = LMB_NONE ∧ flags = LMB_NONE)
    (memory : Bool) {after : List Desc} (canonical : EfiMemory.Canonical after)
    (only : ∀ x, Conventional after x → Conventional b.efi_mem x)
    (cleared : ∀ x, Conventional after x → ¬ (base ≤ x ∧ x < base+size)) :
    Inv (with_map (with_used b (lmb_add_region_flags b.lmb.used_mem base size flags memory).2) after) where
  sound := ⟨inv.sound.available,Lmb.add_region_flags_placed inv.sound.used proper plain memory,inv.sound.unflagged⟩
  available_limit := inv.available_limit
  used_limit x listed := by
    rcases Lmb.add_region_flags_within inv.sound.used proper plain memory listed with old | inside
    · exact inv.used_limit x old
    · omega
  canonical := canonical
  agree x listed new := by
    rcases Lmb.add_region_flags_within inv.sound.used proper plain memory listed with old | inside
    · exact inv.agree x old (only x new)
    · exact cleared x new inside

theorem inv_failed {base size flags : Nat} (proper : Proper base size)
    (plain : ∀ r ∈ b.lmb.used_mem.regions, r.base < base+size → base < r.stop → r.label = LMB_NONE ∧ flags = LMB_NONE)
    {memory : Bool} (fails : (lmb_add_region_flags b.lmb.used_mem base size flags memory).1 ≠ 0) :
    Inv (with_used b (lmb_add_region_flags b.lmb.used_mem base size flags memory).2) := by
  have same := Lmb.add_region_flags_failed inv.sound.used proper plain memory fails
  refine inv_fewer inv (Lmb.add_region_flags_placed inv.sound.used proper plain memory) ?_ inv.canonical
    (fun _ _ old => old)
  intro x listed
  rwa [same] at listed

end steps

theorem notify_speaks {b : Books} (canonical : EfiMemory.Canonical b.efi_mem) {base size flags : Nat}
    (loud : flags &&& LMB_NONOTIFY = 0) (fits : base+size ≤ limit) (op : MapOp) (out : Outside) :
    ∃ ret after, lmb_map_update_notify b base size op flags out = some (ret,with_map b after) ∧
      Told b.efi_mem after base size op ∧
      (out.calloc = true → op = .reserve →
        ∀ x, Conventional after x → ¬ (pages_start base ≤ x ∧ x < pages_stop base size)) := by
  obtain ⟨ret,after,notifies,told⟩ := notify_told canonical fits op out.calloc
  refine ⟨ret,after,?_,told⟩
  rw [lmb_map_update_notify,if_pos loud,notifies]
  rfl

theorem notify_silent {b : Books} {base size flags : Nat} (silent : flags &&& LMB_NONOTIFY ≠ 0) (op : MapOp)
    (out : Outside) : lmb_map_update_notify b base size op flags out = some (0,b) := by
  rw [lmb_map_update_notify,if_neg silent]

/-- What an allocation comes to: nothing, a list that could not grow, or a range
    of the memory that is added and told. -/
inductive Taken (b : Books) (type : MemType) (align addr size flags : Nat) (out : Outside) : Int × Nat × Books → Prop
  | nothing (ret : Int) (addr' : Nat) (zero : ret = 0 → size = 0 ∧ addr' = addr) :
      Taken b type align addr size flags out (ret,addr',b)
  | failed (base : Nat) (proper : Proper base size)
      (plain : ∀ r ∈ b.lmb.used_mem.regions, r.base < base+size → base < r.stop → r.label = LMB_NONE ∧ flags = LMB_NONE)
      (fails : (lmb_add_region_flags b.lmb.used_mem base size flags out.memory).1 ≠ 0) (ret : Int) (addr' : Nat)
      (zero : ret = 0 → type ≠ .addr ∧ addr' = if type = .any then LMB_ALLOC_ANYWHERE else addr) :
      Taken b type align addr size flags out
        (ret,addr',with_used b (lmb_add_region_flags b.lmb.used_mem base size flags out.memory).2)
  | reserved (base : Nat) (proper : Proper base size) (fits : base+size ≤ limit)
      (plain : ∀ r ∈ b.lmb.used_mem.regions, r.base < base+size → base < r.stop → r.label = LMB_NONE ∧ flags = LMB_NONE)
      (chosen : if type = .addr then base = addr else ∃ x, base = Lmb.align_down x align) (ret : Int) (after : List Desc)
      (told : lmb_map_update_notify (with_used b (lmb_add_region_flags b.lmb.used_mem base size flags out.memory).2)
        base size .reserve flags out =
          some (ret,with_map (with_used b (lmb_add_region_flags b.lmb.used_mem base size flags out.memory).2) after))
      (addr' : Nat) (zero : ret = 0 → addr' = base) :
      Taken b type align addr size flags out
        (ret,addr',with_map (with_used b (lmb_add_region_flags b.lmb.used_mem base size flags out.memory).2) after)

theorem notify_returns {b : Books} (canonical : EfiMemory.Canonical b.efi_mem) {base size : Nat}
    (fits : base+size ≤ limit) (op : MapOp) (flags : Nat) (out : Outside) :
    ∃ ret after, lmb_map_update_notify b base size op flags out = some (ret,with_map b after) := by
  by_cases loud : flags &&& LMB_NONOTIFY = 0
  · obtain ⟨ret,after,notifies,_⟩ := notify_speaks canonical loud fits op out
    exact ⟨ret,after,notifies⟩
  · exact ⟨0,b.efi_mem,notify_silent loud op out⟩

section taking
variable {b : Books} (inv : Inv b) (out : Outside) {align addr size flags : Nat}
include inv

theorem available_below {r : Region} (member : r ∈ b.lmb.available_mem.regions) {stop : Nat} (above : r.base < stop)
    (inside : stop ≤ r.stop) : stop ≤ limit := by
  have listed := (listed_iff inv.sound.available.apart).mpr ⟨r,member,by omega,show stop-1 < r.stop by omega⟩
  have below := inv.available_limit _ listed
  omega

theorem lmb_reserve_taken (proper : Proper addr size) (fits : addr+size ≤ limit) :
    ∃ ret b', lmb_reserve b addr size flags out = some (ret,b') ∧ Taken b .addr align addr size flags out (ret,addr,b') := by
  rw [lmb_reserve]
  cases checked : lmb_overlap_checks b.lmb.used_mem.regions addr size flags false with
  | some i => exact ⟨_,_,rfl,.nothing _ _ (by simp [EEXIST])⟩
  | none =>
    have plain := Lmb.overlap_checks_plain inv.sound.used.apart inv.sound.used.bounded proper.1 proper.2 checked
    simp only
    by_cases fails : (lmb_add_region_flags b.lmb.used_mem addr size flags out.memory).1 ≠ 0
    · rw [if_pos fails]
      exact ⟨_,_,rfl,.failed addr proper plain fails _ _ (fun zero => absurd zero fails)⟩
    · rw [if_neg fails]
      obtain ⟨ret,after,told⟩ := notify_returns
        (b := with_used b (lmb_add_region_flags b.lmb.used_mem addr size flags out.memory).2) inv.canonical fits .reserve flags out
      exact ⟨_,_,told,.reserved addr proper fits plain (by simp) ret after told addr (fun _ => rfl)⟩

theorem lmb_alloc_addr_taken (some_size : 0 < size) (wraps_not : addr+size < 2^64) :
    ∃ ret b', _lmb_alloc_addr b addr size flags out = some (ret,b') ∧
      Taken b .addr align addr size flags out (ret,addr,b') := by
  have nothing (code : Int) (negative : code ≠ 0) : Taken b .addr align addr size flags out (code,addr,b) :=
    .nothing _ _ (fun zero => absurd zero negative)
  rw [_lmb_alloc_addr]
  cases located : lmb_overlap_checks b.lmb.available_mem.regions addr size LMB_NOOVERWRITE true with
  | none => exact ⟨_,_,rfl,nothing _ (by decide)⟩
  | some i =>
    obtain ⟨member,_⟩ := Lmb.overlap_checks_some located
    simp only
    by_cases ends : lmb_addrs_overlap (rgn b.lmb.available_mem.regions i).base
        (rgn b.lmb.available_mem.regions i).size (sub64 (add64 addr size) 1) 1 = true
    · rw [if_pos ends]
      -- The last byte lies in a region of the memory.
      have fits : addr+size ≤ limit := by
        have full := inv.sound.available.apart.full _ member
        have bound := inv.sound.available.bounded _ member
        have overlap : lmb_addrs_overlap (rgn b.lmb.available_mem.regions i).base
            (rgn b.lmb.available_mem.regions i).size (addr+size-1) 1 = decide _ :=
          Lmb.overlap_eq (r := ⟨addr+size-1,1,LMB_NONE⟩) full bound Nat.one_pos (by simp only [Interval.stop]; omega)
        rw [Lmb.add64_eq wraps_not,Lmb.sub64_eq (by omega) wraps_not,overlap,decide_eq_true_eq] at ends
        simp only [Interval.stop] at ends
        exact available_below inv member (by omega) (by simp only [Interval.stop]; omega)
      exact lmb_reserve_taken inv out ⟨some_size,wraps_not⟩ fits
    · rw [if_neg ends]
      exact ⟨_,_,rfl,nothing _ (by decide)⟩

theorem lmb_alloc_base_taken {type : MemType} (searched : type ≠ .addr) (some_size : 0 < size) {max_addr : Nat}
    (given : max_addr = if type = .any then LMB_ALLOC_ANYWHERE else addr)
    (limited : LimitHolds b.lmb.available_mem.regions max_addr size) :
    ∃ result, _lmb_alloc_base b size align max_addr flags out = some result ∧
      Taken b type align addr size flags out result := by
  have memory : Lmb.Bounded b.lmb.available_mem.regions.reverse := fun r member =>
    inv.sound.available.bounded r (mem_reverse.mp member)
  have reversed : LimitHolds b.lmb.available_mem.regions.reverse max_addr size := limited.imp_right (Or.imp_right
    fun below r member => below r (mem_reverse.mp member))
  obtain ⟨found,ends,spec⟩ :=
    Lmb.alloc_search_spec align inv.sound.used.apart inv.sound.used.bounded some_size memory reversed
  rw [_lmb_alloc_base,ends]
  cases found with
  | none => exact ⟨_,rfl,.nothing _ _ (by simp)⟩
  | some base =>
    obtain ⟨clear,r,member,low,inside⟩ := spec base rfl
    have bound := memory r member
    have proper : Proper base size := ⟨some_size,by omega⟩
    have fits : base+size ≤ limit := available_below inv (mem_reverse.mp member) (by omega) inside
    have plain : ∀ r ∈ b.lmb.used_mem.regions, r.base < base+size → base < r.stop →
        r.label = LMB_NONE ∧ flags = LMB_NONE := Lmb.clear_plain clear
    simp only
    by_cases fails : (lmb_add_region_flags b.lmb.used_mem base size flags out.memory).1 ≠ 0
    · rw [if_pos fails]
      exact ⟨_,rfl,.failed base proper plain fails _ _ (fun _ => ⟨searched,given⟩)⟩
    rw [if_neg fails]
    obtain ⟨ret,after,told⟩ := notify_returns
      (b := with_used b (lmb_add_region_flags b.lmb.used_mem base size flags out.memory).2) inv.canonical fits .reserve flags out
    have chosen : if type = .addr then base = addr else ∃ x, base = Lmb.align_down x align := by
      rw [if_neg searched]
      exact Lmb.alloc_search_aligned ends
    have taken := fun addr' zero => @Taken.reserved b type align addr size flags out base proper fits plain chosen ret
      after told addr' zero
    rw [told,map_some]
    by_cases refused : ret ≠ 0
    · exact ⟨_,rfl,by rw [if_pos refused]; exact taken max_addr (fun zero => absurd zero refused)⟩
    · have zero : ret = 0 := not_not.mp refused
      refine ⟨_,rfl,?_⟩
      rw [if_neg refused]
      subst zero
      exact taken base (fun _ => rfl)

def Handled (lmb : Lmb) (type : MemType) (addr size : Nat) : Prop :=
  match type with
  | .any => True
  | .max => LimitHolds lmb.available_mem.regions addr size
  | .addr => addr+size < 2^64

theorem lmb_alloc_mem_taken {type : MemType} (handled : Handled b.lmb type addr size) :
    ∃ result, lmb_alloc_mem b type align addr size flags out = some result ∧
      Taken b type align addr size flags out result := by
  rw [lmb_alloc_mem.eq_def]
  by_cases empty : size = 0
  · rw [if_pos empty]
    exact ⟨_,rfl,.nothing _ _ (fun _ => ⟨empty,rfl⟩)⟩
  have some_size : 0 < size := Nat.pos_of_ne_zero empty
  rw [if_neg empty]
  cases type with
  | any => exact lmb_alloc_base_taken inv out (by simp) some_size rfl (.inl rfl)
  | max => exact lmb_alloc_base_taken inv out (by simp) some_size rfl handled
  | addr =>
    obtain ⟨ret,b',returns,taken⟩ := @lmb_alloc_addr_taken b inv out align addr size flags some_size handled
    exact ⟨_,by rw [returns]; rfl,taken⟩

theorem inv_alloc {type : MemType} (loud : flags &&& LMB_NONOTIFY = 0) (allocated : out.calloc = true)
    (handled : Handled b.lmb type addr size) :
    ∃ ret addr' b', lmb_alloc_mem b type align addr size flags out = some (ret,addr',b') ∧ Inv b' := by
  obtain ⟨⟨ret,addr',b'⟩,returns,taken⟩ := lmb_alloc_mem_taken inv out handled
  refine ⟨ret,addr',b',returns,?_⟩
  cases taken with
  | nothing => exact inv
  | failed base proper plain fails => exact inv_failed inv proper plain fails
  | reserved base proper fits plain chosen _ after told =>
    obtain ⟨ret',after',notifies,tells,clears⟩ := notify_speaks
      (b := with_used b (lmb_add_region_flags b.lmb.used_mem base size flags out.memory).2) inv.canonical loud fits .reserve out
    have same : after' = after := by
      have both := notifies.symm.trans told
      simp only [Option.some.injEq,Prod.mk.injEq] at both
      exact congrArg Books.efi_mem both.2
    subst same
    refine inv_reserved inv proper fits plain out.memory tells.canonical ?_ ?_
    · intro x new
      rcases tells.only x new with old | ⟨_,other⟩
      · exact old
      · exact absurd rfl other
    · intro x new inside
      obtain ⟨low,high⟩ := pages_around base size
      exact clears allocated rfl x new (by omega)

end taking

/-- The regions in use have no byte outside a range in the pages that it
    touches. -/
def OwnsPages (used : List Region) (base size : Nat) : Prop :=
  ∀ r ∈ used, r.stop ≤ pages_start base ∨ pages_stop base size ≤ r.base ∨
    base ≤ max r.base (pages_start base) ∧ min r.stop (pages_stop base size) ≤ base+size

instance (used : List Region) (base size : Nat) : Decidable (OwnsPages used base size) :=
  inferInstanceAs (Decidable (∀ _ ∈ used, _))

theorem owned_page {used : List Region} (apart : Apart used) {base size : Nat} (owns : OwnsPages used base size) {x : Nat}
    (listed : Listed used x) (touched : pages_start base ≤ x ∧ x < pages_stop base size) : base ≤ x ∧ x < base+size := by
  obtain ⟨r,member,inside⟩ := (listed_iff apart).mp listed
  have := owns r member
  omega

theorem owns_whole_pages (used : List Region) {base pages : Nat} (aligned : base%EFI_PAGE_SIZE = 0) :
    OwnsPages used base (pages*EFI_PAGE_SIZE) := by
  obtain ⟨start,stop⟩ := @pages_whole base pages aligned
  intro r _
  rw [start,stop]
  exact .inr (.inr ⟨le_max_right _ _,min_le_right _ _⟩)

section releasing
variable {b : Books} {base size : Nat}

theorem inv_free (inv : Inv b) {flags : Nat} (loud : flags &&& LMB_NONOTIFY = 0) (wraps_not : base+size ≤ 2^64)
    (owns : (∃ r ∈ b.lmb.used_mem.regions, r.base ≤ base ∧ base+size ≤ r.stop) →
      OwnsPages b.lmb.used_mem.regions base size) (out : Outside) :
    ∃ ret b', lmb_free b base size flags out = some (ret,b') ∧ Inv b' := by
  have freed := Lmb.lmb_free_spec inv.sound.used.apart inv.sound.used.bounded wraps_not out.memory
  obtain ⟨apart,bounded⟩ := Lmb.freed_keeps inv.sound.used.apart inv.sound.used.bounded (Nat.le_add_right _ _) freed
  have within : ∀ x, Listed (Lmb._lmb_free b.lmb.used_mem base size out.memory).2.regions x → _ := fun x =>
    Lmb.freed_within inv.sound.used.apart (Nat.le_add_right _ _) freed
  rw [lmb_free]
  simp only
  by_cases fails : (Lmb._lmb_free b.lmb.used_mem base size out.memory).1 < 0
  · rw [if_pos fails]
    exact ⟨_,_,rfl,inv_fewer inv ⟨apart,bounded⟩ (fun x listed => (within x listed).1) inv.canonical
      (fun _ _ old => old)⟩
  rw [if_neg fails]
  have found : (Lmb._lmb_free b.lmb.used_mem base size out.memory).1 ≠ -EFAULT := by
    rw [EFAULT]
    omega
  obtain ⟨r,member,low,high⟩ := Lmb.freed_held freed found
  have fits : base+size ≤ limit := by
    have full := inv.sound.used.apart.full r member
    have listed := (listed_iff inv.sound.used.apart).mpr
      ⟨r,member,show r.base ≤ r.stop-1 by simp only [Interval.stop]; omega,by simp only [Interval.stop]; omega⟩
    have below := inv.used_limit _ listed
    omega
  obtain ⟨ret,after,notifies,tells,_⟩ := notify_speaks
    (b := with_used b (Lmb._lmb_free b.lmb.used_mem base size out.memory).2) inv.canonical loud fits .free out
  refine ⟨ret,_,notifies,inv_fewer inv ⟨apart,bounded⟩ (fun x listed => (within x listed).1) tells.canonical ?_⟩
  intro x listed new
  rcases tells.only x new with old | ⟨touched,_⟩
  · exact old
  · -- What is left in use in these pages was in use before, outside the range.
    obtain ⟨before,outside⟩ := within x listed
    exact absurd (owned_page inv.sound.used.apart (owns ⟨r,member,low,high⟩) before touched) (outside found)

/-- A release that is not told changes the list alone. -/
theorem lmb_free_silent {flags : Nat} (silent : flags &&& LMB_NONOTIFY ≠ 0) (out : Outside) :
    ∃ ret, lmb_free b base size flags out =
      some (ret,with_used b (Lmb._lmb_free b.lmb.used_mem base size out.memory).2) := by
  rw [lmb_free]
  simp only
  by_cases fails : (Lmb._lmb_free b.lmb.used_mem base size out.memory).1 < 0
  · rw [if_pos fails]
    exact ⟨_,rfl⟩
  · rw [if_neg fails,notify_silent silent]
    exact ⟨_,rfl⟩

theorem inv_free_silent (inv : Inv b) {flags : Nat} (silent : flags &&& LMB_NONOTIFY ≠ 0) (wraps_not : base+size ≤ 2^64)
    (out : Outside) : ∃ ret b', lmb_free b base size flags out = some (ret,b') ∧ Inv b' := by
  have freed := Lmb.lmb_free_spec inv.sound.used.apart inv.sound.used.bounded wraps_not out.memory
  have keeps := Lmb.freed_keeps inv.sound.used.apart inv.sound.used.bounded (Nat.le_add_right _ _) freed
  obtain ⟨ret,returns⟩ := @lmb_free_silent b base size flags silent out
  refine ⟨ret,_,returns,inv_fewer inv ⟨keeps.1,keeps.2⟩ ?_ inv.canonical (fun _ _ old => old)⟩
  intro x listed
  exact (Lmb.freed_within inv.sound.used.apart (Nat.le_add_right _ _) freed listed).1

theorem inv_given_back (inv : Inv b) {flags : Nat} (silent : flags &&& LMB_NONOTIFY ≠ 0) (proper : Proper base size)
    (plain : ∀ r ∈ b.lmb.used_mem.regions, r.base < base+size → base < r.stop → r.label = LMB_NONE ∧ flags = LMB_NONE)
    (out : Outside) {after : List Desc} (canonical : EfiMemory.Canonical after)
    (only : ∀ x, Conventional after x → Conventional b.efi_mem x) :
    ∃ ret b', lmb_free (with_map (with_used b (lmb_add_region_flags b.lmb.used_mem base size flags out.memory).2) after)
      base size flags out = some (ret,b') ∧ Inv b' := by
  have placed := Lmb.add_region_flags_placed inv.sound.used proper plain out.memory
  have within : ∀ x, Listed (lmb_add_region_flags b.lmb.used_mem base size flags out.memory).2.regions x → _ := fun x =>
    Lmb.add_region_flags_within inv.sound.used proper plain out.memory
  have held := Lmb.add_region_flags_held inv.sound.used proper plain out.memory
  have wraps_not : base+size ≤ 2^64 := le_of_lt proper.2
  generalize (lmb_add_region_flags b.lmb.used_mem base size flags out.memory).2 = added at placed within held ⊢
  obtain ⟨ret,returns⟩ := @lmb_free_silent (with_map (with_used b added) after) base size flags silent out
  have freed := Lmb.lmb_free_spec placed.apart placed.bounded wraps_not out.memory
  have keeps := Lmb.freed_keeps placed.apart placed.bounded (Nat.le_add_right _ _) freed
  refine ⟨ret,_,returns,@inv_fewer b inv (Lmb._lmb_free added base size out.memory).2 after ⟨keeps.1,keeps.2⟩ ?_ canonical
    (fun x _ new => only x new)⟩
  intro x listed
  obtain ⟨mid,outside⟩ := Lmb.freed_within placed.apart (Nat.le_add_right _ _) freed listed
  rcases held with some_region | same
  · exact (within x mid).resolve_right (outside (Lmb.lmb_free_finds placed.bounded proper.1 some_region out.memory))
  · rwa [same] at mid

end releasing

theorem align_down_page (x : Nat) : EFI_PAGE_SIZE ∣ Lmb.align_down x EFI_PAGE_SIZE := by
  have mask : 2^64-1-sub64 EFI_PAGE_SIZE 1 = 2^64-2^12 := by decide
  rw [Lmb.align_down,mask]
  refine Nat.dvd_of_mod_eq_zero ?_
  show (x &&& (2^64-2^12))%2^12 = 0
  rw [Nat.and_mod_two_pow]
  exact Nat.and_zero _

theorem inv_map {b : Books} (inv : Inv b) {after : List Desc} {start stop : Nat} {memory_type : Int} {status : Status}
    (updated : Updated b.efi_mem after start stop memory_type status)
    (other : type_of memory_type ≠ EFI_CONVENTIONAL_MEMORY) : Inv (with_map b after) := by
  refine inv_fewer inv inv.sound.used (fun _ listed => listed) updated.canonical ?_
  intro x _ new
  exact (updated.only x new).resolve_right (fun more => other more.2)

/-- The flags of the allocations of EFI. -/
theorem efi_flags_silent : (LMB_NOOVERWRITE ||| LMB_NONOTIFY) &&& LMB_NONOTIFY ≠ 0 := by decide

/-- A request for pages that the memory blocks handle. A list that cannot grow
    would leave the limit in place of the address. -/
def PagesHandled (b : Books) (type : AllocateType) (pages : Nat) (memory : Option UInt64) (out : Outside) : Prop :=
  match type, memory with
  | .max_address, some start => LimitHolds b.lmb.available_mem.regions start.toNat (pages*EFI_PAGE_SIZE) ∧
      HasRoom b.lmb.used_mem out.memory
  | .address, some start => start.toNat+pages*EFI_PAGE_SIZE < 2^64
  | _, _ => True

section pages
variable {b : Books} (inv : Inv b) (out : Outside)
include inv

/-- The end of an allocation: the map is updated, or the range is given back. -/
theorem inv_described {type : MemType} {align addr size pages : Nat} {addr' : Nat} {b' : Books} {memory_type : Int}
    (whole : size = pages*EFI_PAGE_SIZE) (other : type_of memory_type ≠ EFI_CONVENTIONAL_MEMORY) (small : addr < 2^64)
    (aligned : if type = .addr then EFI_PAGE_SIZE ∣ addr else align = EFI_PAGE_SIZE)
    (room : type = .max → HasRoom b.lmb.used_mem out.memory)
    (taken : Taken b type align addr size (LMB_NOOVERWRITE ||| LMB_NONOTIFY) out (0,addr',b')) :
    ∃ status after, efi_update_memory_map b'.efi_mem addr' pages memory_type true false out.calloc = some (status,after) ∧
      (status = .EFI_SUCCESS → Inv (with_map b' after)) ∧
      (status ≠ .EFI_SUCCESS → ∃ ret b'', lmb_free (with_map b' after) addr' size (LMB_NOOVERWRITE ||| LMB_NONOTIFY) out =
        some (ret,b'') ∧ Inv b'') := by
  -- Where no range was added the books agree, whatever the map says of the pages.
  have harmless {c : Books} (still : Inv c) {a : Nat} (range : PageRange a pages) (wraps_not : a+size ≤ 2^64) :
      ∃ status after, efi_update_memory_map c.efi_mem a pages memory_type true false out.calloc = some (status,after) ∧
        (status = .EFI_SUCCESS → Inv (with_map c after)) ∧
        (status ≠ .EFI_SUCCESS → ∃ ret b'', lmb_free (with_map c after) a size (LMB_NOOVERWRITE ||| LMB_NONOTIFY) out =
          some (ret,b'') ∧ Inv b'') := by
    obtain ⟨status,after,updates,updated,_⟩ := update_updated still.canonical range memory_type true out.calloc
    have mapped := inv_map still updated other
    exact ⟨status,after,updates,fun _ => mapped,fun _ => inv_free_silent mapped efi_flags_silent wraps_not out⟩
  cases taken with
  | nothing _ _ zero =>
    obtain ⟨empty,rfl⟩ := zero rfl
    have none_ : pages = 0 := by
      rw [whole,page_size] at empty
      omega
    exact harmless inv (.inl none_) (by omega)
  | failed base proper plain fails _ _ zero =>
    obtain ⟨searched,given⟩ := zero rfl
    obtain ⟨some_size,fits⟩ := proper
    have any : type = .any := by
      cases type with
      | any => rfl
      | addr => exact absurd rfl searched
      | max =>
        -- With room for one more region an addition does not fail.
        obtain ⟨fine,grows⟩ := room rfl
        rcases Lmb.add_region_flags_returns inv.sound.used ⟨some_size,fits⟩ plain out.memory with
          added | ⟨_,broken | ⟨stuck,full⟩⟩
        · exact absurd added fails
        · simp [fine] at broken
        · simp [stuck,full] at grows
    rw [if_pos any] at given
    subst given
    refine harmless (inv_failed inv ⟨some_size,fits⟩ plain fails) (.inr ⟨Nat.dvd_zero _,?_⟩) ?_
    · rw [LMB_ALLOC_ANYWHERE,← whole]
      omega
    · rw [LMB_ALLOC_ANYWHERE]
      omega
  | reserved base proper fits plain chosen _ after told _ zero =>
    have at_base := zero rfl
    subst at_base
    have silent := @notify_silent (with_used b (lmb_add_region_flags b.lmb.used_mem addr' size
      (LMB_NOOVERWRITE ||| LMB_NONOTIFY) out.memory).2) addr' size _ efi_flags_silent .reserve out
    have unchanged : b.efi_mem = after := by
      have both := silent.symm.trans told
      simp only [Option.some.injEq,Prod.mk.injEq] at both
      exact congrArg Books.efi_mem both.2
    subst unchanged
    have on_page : EFI_PAGE_SIZE ∣ addr' := by
      by_cases named : type = .addr
      · rw [if_pos named] at chosen aligned
        rwa [chosen]
      · rw [if_neg named] at chosen aligned
        obtain ⟨x,rfl⟩ := chosen
        rw [aligned]
        exact align_down_page x
    have range : PageRange addr' pages := .inr ⟨on_page,by rw [← whole]; exact proper.2⟩
    obtain ⟨status,after,updates,updated,_⟩ := update_updated inv.canonical range memory_type true out.calloc
    have only : ∀ x, Conventional after x → Conventional b.efi_mem x := fun x new =>
      (updated.only x new).resolve_right (fun more => other more.2)
    refine ⟨status,after,updates,?_,?_⟩
    · intro success
      refine inv_reserved inv proper fits plain out.memory updated.canonical only ?_
      rw [whole]
      exact updated.cleared success other
    · intro _
      exact inv_given_back inv efi_flags_silent proper plain out updated.canonical only

theorem inv_allocate_pages {type : AllocateType} {memory_type pages : Nat} {memory : Option UInt64}
    (other : type_of (int_of memory_type) ≠ EFI_CONVENTIONAL_MEMORY) (handled : PagesHandled b type pages memory out) :
    ∃ status memory' b', efi_allocate_pages b type memory_type pages memory out = some (status,memory',b') ∧ Inv b' := by
  rw [efi_allocate_pages.eq_def]
  by_cases reserved_type : EFI_PERSISTENT_MEMORY_TYPE ≤ memory_type ∧ memory_type ≤ 0x6FFFFFFF
  · rw [if_pos reserved_type]
    exact ⟨_,_,_,rfl,inv⟩
  rw [if_neg reserved_type]
  cases memory with
  | none => exact ⟨_,_,_,rfl,inv⟩
  | some start =>
    simp only
    by_cases overflows : pages*EFI_PAGE_SIZE%2^64/EFI_PAGE_SIZE ≠ pages
    · rw [if_pos overflows]
      exact ⟨_,_,_,rfl,inv⟩
    rw [if_neg overflows]
    have whole : pages*EFI_PAGE_SIZE%2^64 = pages*EFI_PAGE_SIZE := by
      rw [page_size] at *
      omega
    rw [whole]
    cases requested : request type start.toNat out.garbage.toNat with
    | error status => exact ⟨_,_,_,rfl,inv⟩
    | ok answer =>
      obtain ⟨lmb_type,align,addr⟩ := answer
      have asked : Handled b.lmb lmb_type addr (pages*EFI_PAGE_SIZE) ∧ addr < 2^64 ∧
          (if lmb_type = .addr then EFI_PAGE_SIZE ∣ addr else align = EFI_PAGE_SIZE) ∧
          (lmb_type = .max → HasRoom b.lmb.used_mem out.memory) := by
        cases type with
        | any_pages =>
          cases requested
          exact ⟨trivial,out.garbage.toNat_lt,by simp,by simp⟩
        | max_address =>
          cases requested
          exact ⟨handled.1,start.toNat_lt,by simp,fun _ => handled.2⟩
        | address =>
          rw [request] at requested
          split_ifs at requested with unaligned
          cases requested
          exact ⟨handled,start.toNat_lt,by simpa using Nat.dvd_of_mod_eq_zero (not_not.mp unaligned),by simp⟩
        | other => cases requested
      obtain ⟨proper,small,aligned,room⟩ := asked
      obtain ⟨⟨err,addr',b'⟩,returns,taken⟩ := @lmb_alloc_mem_taken b inv out align addr (pages*EFI_PAGE_SIZE)
        (LMB_NOOVERWRITE ||| LMB_NONOTIFY) lmb_type proper
      simp only [returns]
      by_cases fails : err ≠ 0
      · rw [if_pos fails]
        refine ⟨_,_,_,rfl,?_⟩
        cases taken with
        | nothing => exact inv
        | failed base proper plain fails => exact inv_failed inv proper plain fails
        | reserved base proper fits plain chosen _ after told =>
          rw [notify_silent efi_flags_silent] at told
          cases told
          exact absurd rfl fails
      · rw [if_neg fails]
        obtain rfl : err = 0 := not_not.mp fails
        obtain ⟨status,after,updates,described,given_back⟩ :=
          inv_described inv out rfl other small aligned room taken
        simp only [updates]
        by_cases success : status = .EFI_SUCCESS
        · rw [if_neg (by simp [success])]
          exact ⟨_,_,_,rfl,described success⟩
        · obtain ⟨ret,b'',frees,agree⟩ := given_back success
          rw [if_pos (by simpa using success),frees]
          exact ⟨_,_,_,rfl,agree⟩

theorem inv_free_pages {memory pages : Nat} (wraps_not : memory+pages*EFI_PAGE_SIZE ≤ 2^64) :
    ∃ status b', efi_free_pages b memory pages out = some (status,b') ∧ Inv b' := by
  rw [efi_free_pages]
  simp only
  by_cases missing : efi_check_allocated memory true b.efi_mem ≠ .EFI_SUCCESS
  · rw [if_pos missing]
    exact ⟨_,_,rfl,inv⟩
  rw [if_neg missing]
  by_cases illegal : memory = 0 ∨ memory%EFI_PAGE_SIZE ≠ 0 ∨ pages = 0
  · rw [if_pos illegal]
    exact ⟨_,_,rfl,inv⟩
  · rw [if_neg illegal]
    obtain ⟨some_address,aligned,_⟩ := not_or.mp illegal |>.imp_right not_or.mp
    have whole : pages*EFI_PAGE_SIZE%2^64 = pages*EFI_PAGE_SIZE := Nat.mod_eq_of_lt (by omega)
    obtain ⟨ret,b',frees,agree⟩ := @inv_free b memory (pages*EFI_PAGE_SIZE) inv LMB_NOOVERWRITE (by decide) wraps_not
      (fun _ => owns_whole_pages _ (not_not.mp aligned)) out
    rw [whole,frees]
    exact ⟨_,_,rfl,agree⟩

theorem inv_add {base size : Nat} (proper : Proper base size) (fits : base+size ≤ limit)
    (unused : ∀ r ∈ b.lmb.used_mem.regions, r.stop ≤ pages_start base ∨ pages_stop base size ≤ r.base) :
    ∃ ret b', lmb_add b base size out = some (ret,b') ∧ Inv b' := by
  have plain : ∀ r ∈ b.lmb.available_mem.regions, r.base < base+size → base < r.stop →
      r.label = LMB_NONE ∧ LMB_NONE = LMB_NONE := fun r member _ _ => ⟨Lmb.available_plain inv.sound r member,rfl⟩
  obtain ⟨result,added⟩ : ∃ result, lmb_add_region_flags b.lmb.available_mem base size LMB_NONE out.memory = result := ⟨_,rfl⟩
  have sound : Sound { b.lmb with available_mem := result.2 } :=
    added ▸ Lmb.sound_step (e := ⟨.add base size,⟨out.memory,true⟩⟩) inv.sound proper
  have bounds : ∀ x, Listed result.2.regions x → x < limit := by
    intro x listed
    rw [← added] at listed
    rcases Lmb.add_region_flags_within inv.sound.available proper plain out.memory listed with old | inside
    · exact inv.available_limit x old
    · omega
  have with_bank {after : List Desc} (canonical : EfiMemory.Canonical after)
      (only : ∀ x, Conventional after x → Conventional b.efi_mem x ∨ pages_start base ≤ x ∧ x < pages_stop base size) :
      Inv ⟨{ b.lmb with available_mem := result.2 },after⟩ := by
    refine ⟨sound,bounds,inv.used_limit,canonical,?_⟩
    intro x listed new
    rcases only x new with old | touched
    · exact inv.agree x listed old
    · obtain ⟨r,member,inside⟩ := (listed_iff inv.sound.used.apart).mp listed
      have := unused r member
      omega
  rw [lmb_add,added]
  simp only
  by_cases fails : result.1 ≠ 0
  · rw [if_pos fails]
    exact ⟨_,_,rfl,with_bank inv.canonical (fun _ old => .inl old)⟩
  · rw [if_neg fails]
    obtain ⟨ret,after,notifies,tells,_⟩ := notify_speaks (b := ⟨{ b.lmb with available_mem := result.2 },b.efi_mem⟩)
      inv.canonical (show LMB_NONE &&& LMB_NONOTIFY = 0 by decide) fits .add out
    refine ⟨ret,_,notifies,with_bank tells.canonical ?_⟩
    intro x new
    exact (tells.only x new).imp_right (fun more => more.1)

end pages

inductive Call where
  /-- A bank of memory, at the start. -/
  | add (base size : Nat)
  /-- The pages that `efi_memory_init` describes, at the start. -/
  | init (start pages : Nat) (memory_type : Int)
  | alloc (type : MemType) (align addr size flags : Nat)
  | free (base size flags : Nat)
  | allocate_pages (type : AllocateType) (memory_type pages : Nat) (memory : Option UInt64)
  | free_pages (memory pages : Nat)

structure Event where
  call : Call
  out : Outside

def perform (b : Books) (e : Event) : Option Books :=
  match e.call with
  | .add base size => (lmb_add b base size e.out).map fun (_,b) => b
  | .init start pages memory_type =>
    (efi_update_memory_map b.efi_mem start pages memory_type false false e.out.calloc).map fun (_,efi_mem) =>
      with_map b efi_mem
  | .alloc type align addr size flags => (lmb_alloc_mem b type align addr size flags e.out).map fun (_,_,b) => b
  | .free base size flags => (lmb_free b base size flags e.out).map fun (_,b) => b
  | .allocate_pages type memory_type pages memory =>
    (efi_allocate_pages b type memory_type pages memory e.out).map fun (_,_,b) => b
  | .free_pages memory pages => (efi_free_pages b memory pages e.out).map fun (_,b) => b

def step (b : Books) (e : Event) : Books := (perform b e).getD b

def start : Books := ⟨lmb_setup,[]⟩

/-- No page that a region in use has a byte of is conventional memory in the
    map. -/
def Agree (b : Books) : Prop :=
  ∀ r ∈ b.lmb.used_mem.regions, ∀ page, r.base < (page+1)*EFI_PAGE_SIZE → page*EFI_PAGE_SIZE < r.stop →
    ∀ attr, page_map b.efi_mem page ≠ some (EFI_CONVENTIONAL_MEMORY,attr)

/-- A call that keeps the books in agreement. A bank has no byte in use in its
    pages; what is released has its pages to itself; nobody asks for conventional
    memory by name; ranges do not wrap; and a reservation is not told in vain. -/
def Kept (b : Books) (e : Event) : Prop :=
  match e.call with
  | .add base size => Proper base size ∧ base+size ≤ limit ∧
      ∀ r ∈ b.lmb.used_mem.regions, r.stop ≤ pages_start base ∨ pages_stop base size ≤ r.base
  | .init start pages memory_type =>
    (EFI_PAGE_SIZE ∣ start ∧ start+pages*EFI_PAGE_SIZE < 2^64) ∧ type_of memory_type ≠ EFI_CONVENTIONAL_MEMORY
  | .alloc type _ addr size flags => flags &&& LMB_NONOTIFY = 0 ∧ e.out.calloc = true ∧ Handled b.lmb type addr size
  | .free base size flags => flags &&& LMB_NONOTIFY = 0 ∧ base+size ≤ 2^64 ∧
      ((∃ r ∈ b.lmb.used_mem.regions, r.base ≤ base ∧ base+size ≤ r.stop) → OwnsPages b.lmb.used_mem.regions base size)
  | .allocate_pages type memory_type pages memory =>
    type_of (int_of memory_type) ≠ EFI_CONVENTIONAL_MEMORY ∧ PagesHandled b type pages memory e.out
  | .free_pages memory pages => memory+pages*EFI_PAGE_SIZE ≤ 2^64

section deciding
variable (b : Books)

instance (lst : List Region) (addr size : Nat) : Decidable (LimitHolds lst addr size) :=
  inferInstanceAs (Decidable (_ ∨ _ ∨ ∀ _ ∈ lst, _))

instance (type : MemType) (addr size : Nat) : Decidable (Handled b.lmb type addr size) :=
  match type with
  | .any => .isTrue trivial
  | .max => inferInstanceAs (Decidable (LimitHolds _ _ _))
  | .addr => inferInstanceAs (Decidable (_ < _))

instance (type : AllocateType) (pages : Nat) (memory : Option UInt64) (out : Outside) :
    Decidable (PagesHandled b type pages memory out) :=
  match type, memory with
  | .max_address, some _ => inferInstanceAs (Decidable (LimitHolds _ _ _ ∧ _ ∧ (_ ∨ _)))
  | .address, some _ => inferInstanceAs (Decidable (_ < _))
  | .max_address, none => .isTrue trivial
  | .address, none => .isTrue trivial
  | .any_pages, none => .isTrue trivial
  | .any_pages, some _ => .isTrue trivial
  | .other, none => .isTrue trivial
  | .other, some _ => .isTrue trivial

instance (e : Event) : Decidable (Kept b e) :=
  match e with
  | ⟨.add _ _,_⟩ => inferInstanceAs (Decidable ((_ ∧ _) ∧ _ ∧ ∀ _ ∈ b.lmb.used_mem.regions, _))
  | ⟨.init _ _ _,_⟩ => inferInstanceAs (Decidable ((_ ∧ _) ∧ _))
  | ⟨.alloc _ _ _ _ _,_⟩ => inferInstanceAs (Decidable (_ ∧ _ ∧ Handled _ _ _ _))
  | ⟨.free _ _ _,_⟩ => inferInstanceAs (Decidable (_ ∧ _ ∧ ((∃ _ ∈ b.lmb.used_mem.regions, _) → OwnsPages _ _ _)))
  | ⟨.allocate_pages _ _ _ _,_⟩ => inferInstanceAs (Decidable (_ ∧ PagesHandled _ _ _ _ _))
  | ⟨.free_pages _ _,_⟩ => inferInstanceAs (Decidable (_ ≤ _))

end deciding

theorem inv_perform {b : Books} {e : Event} (inv : Inv b) (kept : Kept b e) : ∃ b', perform b e = some b' ∧ Inv b' := by
  obtain ⟨call,out⟩ := e
  cases call with
  | add base size =>
    obtain ⟨proper,fits,unused⟩ := kept
    obtain ⟨ret,b',returns,after⟩ := inv_add inv out proper fits unused
    exact ⟨b',by simp only [perform,returns,map_some],after⟩
  | init start pages memory_type =>
    obtain ⟨range,other⟩ := kept
    obtain ⟨status,after,updates,updated,_⟩ := update_updated inv.canonical (.inr range) memory_type false out.calloc
    exact ⟨with_map b after,by simp only [perform,updates,map_some],inv_map inv updated other⟩
  | alloc type align addr size flags =>
    obtain ⟨loud,allocated,handled⟩ := kept
    obtain ⟨ret,addr',b',returns,after⟩ := @inv_alloc b inv out align addr size flags type loud allocated handled
    exact ⟨b',by simp only [perform,returns,map_some],after⟩
  | free base size flags =>
    obtain ⟨loud,wraps_not,owns⟩ := kept
    obtain ⟨ret,b',returns,after⟩ := inv_free inv loud wraps_not owns out
    exact ⟨b',by simp only [perform,returns,map_some],after⟩
  | allocate_pages type memory_type pages memory =>
    obtain ⟨other,handled⟩ := kept
    obtain ⟨status,memory',b',returns,after⟩ := inv_allocate_pages inv out other handled
    exact ⟨b',by simp only [perform,returns,map_some],after⟩
  | free_pages memory pages =>
    obtain ⟨status,b',returns,after⟩ := inv_free_pages inv out kept
    exact ⟨b',by simp only [perform,returns,map_some],after⟩

theorem inv_step {b : Books} {e : Event} (inv : Inv b) (kept : Kept b e) : Inv (step b e) := by
  obtain ⟨b',returns,after⟩ := inv_perform inv kept
  rw [step,returns]
  exact after

theorem inv_start : Inv start where
  sound := Lmb.tidy_setup.toSound
  available_limit x listed := absurd rfl listed
  used_limit x listed := absurd rfl listed
  canonical := ⟨by simp [start],List.Pairwise.nil⟩
  agree x listed := absurd rfl listed

theorem inv_agree {b : Books} (inv : Inv b) : Agree b := by
  intro r member page above below attr described
  obtain ⟨d,listed,low,high,same⟩ := (EfiMemory.value_covers inv.canonical).mp described
  have placed := inv.canonical.placed d listed
  have full := inv.sound.used.apart.full r member
  have start_page := placed.aligned
  have stop_page := placed.stop_aligned
  have inside : d.physical_start ≤ max r.base (page*EFI_PAGE_SIZE) ∧ max r.base (page*EFI_PAGE_SIZE) < d.stop := by
    rw [page_size] at *
    omega
  have used : Listed b.lmb.used_mem.regions (max r.base (page*EFI_PAGE_SIZE)) :=
    (listed_iff inv.sound.used.apart).mpr ⟨r,member,le_max_left _ _,by simp only [Interval.stop] at *; omega⟩
  exact inv.agree _ used ⟨attr,d,listed,inside.1,inside.2,same⟩

/-- In every run whose calls are kept, every call returns, and after each of
    them the two books agree. -/
theorem books_agree (events : List Event) (kept : Along step Kept start events) :
    (∀ done rest, events = done ++ rest → Agree (run step start done)) ∧
      Along step (fun b e => (perform b e).isSome) start events := by
  constructor
  · rintro done rest rfl
    exact inv_agree (invariant (fun _ _ => inv_step) inv_start (along_append.mp kept).1)
  · refine along_of_invariant (fun _ _ => inv_step) ?_ inv_start kept
    intro b e inv holds
    obtain ⟨b',returns,_⟩ := inv_perform inv holds
    rw [returns]
    rfl

/-- Memory with a place for U-Boot, two regions in one page that are released
    together, and pages of EFI that are released with others still in use. -/
theorem books_agree_eight_calls :
    Agree (run step start [⟨.add 0x10000 0x40000,⟨true,true,0⟩⟩,⟨.init 0x40000 16 3,⟨true,true,0⟩⟩,
      ⟨.alloc .addr 0 0x12000 0x200 4,⟨true,true,0⟩⟩,⟨.alloc .addr 0 0x12200 0x300 4,⟨true,true,0⟩⟩,
      ⟨.allocate_pages .max_address 4 2 (some 0x30000),⟨true,true,0⟩⟩,⟨.alloc .any 16 0 0x1800 0,⟨true,true,0⟩⟩,
      ⟨.free 0x12000 0x500 4,⟨true,true,0⟩⟩,⟨.free_pages 0x2e000 1,⟨true,true,0⟩⟩]) := by
  refine (books_agree _ ?_).1 _ [] (List.append_nil _).symm
  decide +kernel

/-- The calls that the two books are meant for: banks of whole pages before
    anything is in use, ranges in the memory, and nothing fails outside. -/
def InMemory (b : Books) (e : Event) : Prop :=
  e.out.memory = true ∧ e.out.calloc = true ∧
  match e.call with
  | .add base size => (EFI_PAGE_SIZE ∣ base ∧ EFI_PAGE_SIZE ∣ size ∧ 0 < size ∧ base+size ≤ limit) ∧
      b.lmb.used_mem.regions = []
  | .init start pages memory_type =>
    (EFI_PAGE_SIZE ∣ start ∧ start+pages*EFI_PAGE_SIZE < 2^64) ∧ type_of memory_type ≠ EFI_CONVENTIONAL_MEMORY
  | .alloc type _ addr size flags => flags &&& LMB_NONOTIFY = 0 ∧ 0 < size ∧ (type = .max → size ≤ addr) ∧
      (type = .addr → ∃ r ∈ b.lmb.available_mem.regions, r.base ≤ addr ∧ addr+size ≤ r.stop)
  | .free base size flags => flags &&& LMB_NONOTIFY = 0 ∧ 0 < size ∧
      ∃ r ∈ b.lmb.available_mem.regions, r.base ≤ base ∧ base+size ≤ r.stop
  | .allocate_pages type _ pages memory => type = .max_address → ∀ m ∈ memory, pages*EFI_PAGE_SIZE ≤ m.toNat
  | .free_pages memory pages => ∃ r ∈ b.lmb.available_mem.regions, r.base ≤ memory ∧ memory+pages*EFI_PAGE_SIZE ≤ r.stop

/-- Two regions share a page. The release of one of them makes the page
    conventional memory while the other is still in use. -/
theorem shared_page_disagrees :
    ¬ ∀ events : List Event, Along step InMemory start events → Agree (run step start events) := by
  intro claim
  have agree := claim [⟨.add 0x1000 0x10000,⟨true,true,0⟩⟩,⟨.alloc .addr 0 0x2000 0x100 4,⟨true,true,0⟩⟩,
    ⟨.alloc .addr 0 0x2200 0x100 4,⟨true,true,0⟩⟩,⟨.free 0x2000 0x100 4,⟨true,true,0⟩⟩] ?_
  · have used : (run step start [⟨.add 0x1000 0x10000,⟨true,true,0⟩⟩,⟨.alloc .addr 0 0x2000 0x100 4,⟨true,true,0⟩⟩,
        ⟨.alloc .addr 0 0x2200 0x100 4,⟨true,true,0⟩⟩,⟨.free 0x2000 0x100 4,⟨true,true,0⟩⟩]).lmb.used_mem.regions =
        [⟨0x2200,0x100,4⟩] := by decide +kernel
    have described : page_map (run step start [⟨.add 0x1000 0x10000,⟨true,true,0⟩⟩,
        ⟨.alloc .addr 0 0x2000 0x100 4,⟨true,true,0⟩⟩,⟨.alloc .addr 0 0x2200 0x100 4,⟨true,true,0⟩⟩,
        ⟨.free 0x2000 0x100 4,⟨true,true,0⟩⟩]).efi_mem 2 = some (7,8) := by decide +kernel
    refine agree ⟨0x2200,0x100,4⟩ ?_ 2 (by decide) (by decide) 8 described
    rw [used]
    exact List.mem_singleton_self _
  · refine ⟨⟨rfl,rfl,?_⟩,⟨rfl,rfl,?_⟩,⟨rfl,rfl,?_⟩,⟨rfl,rfl,?_⟩,trivial⟩
    · exact ⟨by decide,rfl⟩
    · exact ⟨rfl,by decide,by decide,fun _ => ⟨⟨0x1000,0x10000,0⟩,by decide +kernel,by decide,by decide⟩⟩
    · exact ⟨rfl,by decide,by decide,fun _ => ⟨⟨0x1000,0x10000,0⟩,by decide +kernel,by decide,by decide⟩⟩
    · exact ⟨rfl,by decide,⟨0x1000,0x10000,0⟩,by decide +kernel,by decide,by decide⟩

end UBoot.EfiLmb
