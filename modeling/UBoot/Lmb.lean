import UBoot.Intervals

/-!
The logical memory blocks of `lib/lmb.c`: the region lists with their loops over
indices, the allocation and release functions on the two global lists, and the
failures that come from outside (a list that cannot grow, a notification that
is refused), which each call is given as arguments. Addresses are 64 bits wide
and wrap.
-/
namespace UBoot.Lmb
open UBoot.Intervals
set_option linter.dupNamespace false

def EFAULT : Int := 14
def EEXIST : Int := 17
def EINVAL : Int := 22

def LMB_NONE : Nat := 0
def LMB_NOOVERWRITE : Nat := 4
def LMB_ALLOC_ANYWHERE : Nat := 0
def LMB_ALIST_INITIAL_SIZE : Nat := 4

def add64 (a b : Nat) : Nat := (a+b)%2^64
def sub64 (a b : Nat) : Nat := (a+(2^64-b%2^64))%2^64

/-- `struct lmb_region`; the label is its `flags`. -/
abbrev Region := Intervals.Interval Nat

/-- `struct alist`: the regions, how many fit, and whether growing has failed. -/
structure Alist where
  regions : List Region
  alloc : Nat
  fail : Bool

def lmb_addrs_overlap (base1 size1 base2 size2 : Nat) : Bool :=
  let base1_end := sub64 (add64 base1 size1) 1
  let base2_end := sub64 (add64 base2 size2) 1
  decide (base1 ≤ base2_end ∧ base2 ≤ base1_end)

def lmb_addrs_adjacent (base1 size1 base2 size2 : Nat) : Int :=
  if base2 = add64 base1 size1 then 1 else if base1 = add64 base2 size2 then -1 else 0

inductive Check where
  | overlap
  | adjacent
  | neither
  deriving DecidableEq, Repr

def rgn (lst : List Region) (i : Nat) : Region := lst.getD i ⟨0,0,LMB_NONE⟩

def lmb_regions_check (lst : List Region) (r1 r2 : Nat) : Check :=
  let one := rgn lst r1
  let two := rgn lst r2
  if one.label ≠ two.label then .neither
  else if lmb_addrs_overlap one.base one.size two.base two.size then .overlap
  else if lmb_addrs_adjacent one.base one.size two.base two.size ≠ 0 then .adjacent
  else .neither

def lmb_remove_region (lst : List Region) (r : Nat) : List Region := lst.eraseIdx r

def lmb_coalesce_regions (lst : List Region) (r1 r2 : Nat) : List Region :=
  let one := rgn lst r1
  lmb_remove_region (lst.set r1 { one with size := add64 one.size (rgn lst r2).size }) r2

/-- The first loop of `lmb_resize_regions` over the regions from `idx` on: how
    many overlap the range and the last one that does, or nothing when one of
    them has flags. -/
def count_overlaps (base size : Nat) : List Region → Nat → Nat → Nat → Option (Nat × Nat)
  | [], _, rgn_cnt, idx_end => some (rgn_cnt,idx_end)
  | r :: rest, idx, rgn_cnt, idx_end =>
    if lmb_addrs_overlap base size r.base r.size then
      if r.label ≠ LMB_NONE then none else count_overlaps base size rest (idx+1) (rgn_cnt+1) idx
    else count_overlaps base size rest (idx+1) rgn_cnt idx_end

/-- `while (--rgn_cnt) lmb_remove_region(lst, r)`. -/
def remove_regions (lst : List Region) (r : Nat) : Nat → List Region
  | 0 => lst
  | n+1 => remove_regions (lmb_remove_region lst r) r n

def lmb_resize_regions (lst : List Region) (idx_start base size : Nat) : Option (List Region) :=
  match count_overlaps base size (lst.drop idx_start) idx_start 0 idx_start with
  | none => none
  | some (rgn_cnt,idx_end) =>
    let first := rgn lst idx_start
    let last := rgn lst idx_end
    let mergebase := min base first.base
    let mergeend := max (add64 last.base last.size) (add64 base size)
    let resized := lst.set idx_start { first with base := mergebase, size := sub64 mergeend mergebase }
    some (remove_regions resized (idx_start+1) (rgn_cnt-1))

/-- Where the first loop of `lmb_add_region_flags` stops. -/
inductive Stop where
  /-- A region right behind the range, with other flags. -/
  | flags (i : Nat)
  /-- A region right behind the range, with its flags. -/
  | behind (i : Nat)
  /-- A region right before the range, with its flags. -/
  | before (i : Nat)
  | overlap (i : Nat)
  | none
  deriving DecidableEq, Repr

def find_neighbour (base size flags : Nat) : List Region → Nat → Stop
  | [], _ => .none
  | r :: rest, i =>
    let ret := lmb_addrs_adjacent base size r.base r.size
    if ret > 0 then if flags ≠ r.label then .flags i else .behind i
    else if ret < 0 then if flags ≠ r.label then find_neighbour base size flags rest (i+1) else .before i
    else if lmb_addrs_overlap base size r.base r.size then .overlap i
    else find_neighbour base size flags rest (i+1)

/-- The first attempt of `lmb_add_region_flags`: the list, the index where the
    loop stopped, and whether the range is in. Nothing when resizing fails. -/
def coalesce (lst : List Region) (base size flags : Nat) : Option (List Region × Nat × Bool) :=
  match find_neighbour base size flags lst 0 with
  | .flags i => some (lst,i,false)
  | .behind i =>
    let r := rgn lst i
    some (lst.set i { r with base := sub64 r.base size, size := add64 r.size size },i,true)
  | .before i =>
    let r := rgn lst i
    some (lst.set i { r with size := add64 r.size size },i,true)
  | .overlap i => (lmb_resize_regions lst i base size).map fun lst => (lst,i,true)
  | .none => some (lst,lst.length,false)

/-- The second attempt: the region at the index and its successor. -/
def coalesce_next (lst : List Region) (i : Nat) (coalesced : Bool) : Option (List Region × Bool) :=
  if i+1 < lst.length then
    match lmb_regions_check lst i (i+1) with
    | .adjacent => some (lmb_coalesce_regions lst i (i+1),true)
    | .overlap => (lmb_resize_regions lst i (rgn lst i).base (rgn lst i).size).map fun lst => (lst,true)
    | .neither => some (lst,coalesced)
  else some (lst,coalesced)

/-- The index where the last loop of `lmb_add_region_flags` puts the region. -/
def insert_index (lst : List Region) (base : Nat) : Nat → Nat
  | 0 => 0
  | i+1 => if base < (rgn lst i).base then insert_index lst base i else i+1

/-- The return code and the list; `memory` says whether a full list can grow. -/
def lmb_add_region_flags (lst : Alist) (base size flags : Nat) (memory : Bool) : Int × Alist :=
  if lst.fail then (-1,lst)
  else
    match coalesce lst.regions base size flags with
    | none => (-1,lst)
    | some (first,i,coalesced) =>
      match coalesce_next first i coalesced with
      | none => (-1,{ lst with regions := first })
      | some (second,true) => (0,{ lst with regions := second })
      | some (second,false) =>
        if second.length = lst.alloc ∧ memory = false then (-1,⟨second,lst.alloc,true⟩)
        else
          let alloc := if second.length = lst.alloc then 2*lst.alloc else lst.alloc
          (0,⟨second.insertIdx (insert_index second base second.length) ⟨base,size,flags⟩,alloc,false⟩)

/-- `_lmb_free`: the first region that holds the range gives it up. -/
def _lmb_free (lst : Alist) (base size : Nat) (memory : Bool) : Int × Alist :=
  let end_ := sub64 (add64 base size) 1
  let rgnend (r : Region) := sub64 (add64 r.base r.size) 1
  match lst.regions.findIdx? fun r => r.base ≤ base ∧ end_ ≤ rgnend r with
  | none => (-EFAULT,lst)
  | some i =>
    let r := rgn lst.regions i
    if r.base = base ∧ rgnend r = end_ then (0,{ lst with regions := lmb_remove_region lst.regions i })
    else if r.base = base then
      (0,{ lst with regions := lst.regions.set i { r with base := add64 end_ 1, size := sub64 r.size size } })
    else if rgnend r = end_ then
      (0,{ lst with regions := lst.regions.set i { r with size := sub64 r.size size } })
    else
      lmb_add_region_flags { lst with regions := lst.regions.set i { r with size := sub64 base r.base } }
        (add64 end_ 1) (sub64 (rgnend r) end_) r.label memory

def lmb_overlap_checks (lst : List Region) (base size flags : Nat) (alloc : Bool) : Option Nat :=
  lst.findIdx? fun r => lmb_addrs_overlap base size r.base r.size ∧ (alloc ∨ flags ≠ LMB_NONE ∨ flags ≠ r.label)

structure Lmb where
  available_mem : Alist
  used_mem : Alist

def lmb_setup : Lmb := ⟨⟨[],LMB_ALIST_INITIAL_SIZE,false⟩,⟨[],LMB_ALIST_INITIAL_SIZE,false⟩⟩

/-- What a call meets outside: whether a full list can grow, and whether the
    notification of the change, where there is one, is accepted. -/
structure Outside where
  memory : Bool
  notified : Bool

def lmb_map_update_notify (out : Outside) : Int := if out.notified then 0 else -1

def lmb_reserve (lmb : Lmb) (base size flags : Nat) (out : Outside) : Int × Lmb :=
  match lmb_overlap_checks lmb.used_mem.regions base size flags false with
  | some _ => (-EEXIST,lmb)
  | none =>
    let (ret,used) := lmb_add_region_flags lmb.used_mem base size flags out.memory
    (if ret ≠ 0 then ret else lmb_map_update_notify out,{ lmb with used_mem := used })

def lmb_add (lmb : Lmb) (base size : Nat) (out : Outside) : Int × Lmb :=
  let (ret,available) := lmb_add_region_flags lmb.available_mem base size LMB_NONE out.memory
  (if ret ≠ 0 then ret else lmb_map_update_notify out,{ lmb with available_mem := available })

def lmb_free (lmb : Lmb) (base size : Nat) (out : Outside) : Int × Lmb :=
  let (ret,used) := _lmb_free lmb.used_mem base size out.memory
  (if ret < 0 then ret else lmb_map_update_notify out,{ lmb with used_mem := used })

def align_down (x align : Nat) : Nat := x &&& (2^64-1-sub64 align 1)

/-- The inner loop of `_lmb_alloc_base` for so many rounds: the address that is
    taken, `some none` when none is, and no result when the loop is still
    going. -/
def alloc_below (used : List Region) (lmbbase size align : Nat) : Nat → Nat → Option (Option Nat)
  | rounds, base =>
    if base ≠ 0 ∧ lmbbase ≤ base then
      match lmb_overlap_checks used base size LMB_NOOVERWRITE true with
      | none => some (some base)
      | some i =>
        let res_base := (rgn used i).base
        if res_base < size then some none
        else
          match rounds with
          | 0 => none
          | rounds+1 => alloc_below used lmbbase size align rounds (align_down (sub64 res_base size) align)
    else some none

/-- The address where `_lmb_alloc_base` starts in a region, if it looks there. -/
def alloc_start (r : Region) (size align max_addr : Nat) : Option Nat :=
  if r.size < size then none
  else if max_addr = LMB_ALLOC_ANYWHERE then some (align_down (sub64 (add64 r.base r.size) size) align)
  else if r.base < max_addr then
    let base := add64 r.base r.size
    let base := if base < r.base then 2^64-1 else base
    some (align_down (sub64 (min base max_addr) size) align)
  else none

/-- The outer loop of `_lmb_alloc_base` over the regions, the last one first.
    Each round lowers the address, so as many rounds as the address will do. -/
def alloc_search (used : List Region) (size align max_addr : Nat) : List Region → Option (Option Nat)
  | [] => some none
  | r :: rest =>
    match alloc_start r size align max_addr with
    | none => alloc_search used size align max_addr rest
    | some start =>
      match alloc_below used r.base size align start start with
      | none => none
      | some none => alloc_search used size align max_addr rest
      | some (some base) => some (some base)

def _lmb_alloc_base (lmb : Lmb) (size align addr flags : Nat) (out : Outside) : Option (Int × Nat × Lmb) :=
  match alloc_search lmb.used_mem.regions size align addr lmb.available_mem.regions.reverse with
  | none => none
  | some none => some (-1,addr,lmb)
  | some (some base) =>
    let (ret,used) := lmb_add_region_flags lmb.used_mem base size flags out.memory
    let lmb := { lmb with used_mem := used }
    if ret ≠ 0 then some (0,addr,lmb)
    else if lmb_map_update_notify out ≠ 0 then some (lmb_map_update_notify out,addr,lmb)
    else some (0,base,lmb)

def _lmb_alloc_addr (lmb : Lmb) (base size flags : Nat) (out : Outside) : Int × Lmb :=
  match lmb_overlap_checks lmb.available_mem.regions base size LMB_NOOVERWRITE true with
  | none => (-EFAULT,lmb)
  | some i =>
    let r := rgn lmb.available_mem.regions i
    if lmb_addrs_overlap r.base r.size (sub64 (add64 base size) 1) 1 then lmb_reserve lmb base size flags out
    else (-EINVAL,lmb)

inductive MemType where
  | any
  | max
  | addr
  deriving DecidableEq, Repr

/-- The return code, `*addr` after the call, and the lists. -/
def lmb_alloc_mem (lmb : Lmb) (type : MemType) (align addr size flags : Nat) (out : Outside) :
    Option (Int × Nat × Lmb) :=
  if size = 0 then some (0,addr,lmb)
  else
    match type with
    | .any => _lmb_alloc_base lmb size align LMB_ALLOC_ANYWHERE flags out
    | .max => _lmb_alloc_base lmb size align addr flags out
    | .addr =>
      let (ret,lmb) := _lmb_alloc_addr lmb addr size flags out
      some (ret,addr,lmb)

/-- The loop of `lmb_get_free_size` over the reservations; `bank_end` is where
    the last bank ends. -/
def free_until (addr bank_end : Nat) : List Region → Nat
  | [] => sub64 bank_end addr
  | r :: rest =>
    if addr < r.base then sub64 r.base addr
    else if addr < add64 r.base r.size then 0
    else free_until addr bank_end rest

def lmb_get_free_size (lmb : Lmb) (addr : Nat) : Nat :=
  match lmb_overlap_checks lmb.available_mem.regions addr 1 LMB_NOOVERWRITE true with
  | none => 0
  | some _ =>
    let last := rgn lmb.available_mem.regions (lmb.available_mem.regions.length-1)
    free_until addr (add64 last.base last.size) lmb.used_mem.regions

end UBoot.Lmb
