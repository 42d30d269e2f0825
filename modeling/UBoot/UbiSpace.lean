import UBoot.RecoveryFlash

/-!
The eraseblocks of UBI, `drivers/mtd/ubi`: what is left for volumes after an erased
partition was attached, what a volume reserves, and what an update takes. Only the
numbers of eraseblocks are kept. What can go wrong besides is an argument of each
operation; no block goes bad, and the blocks that are to be erased count as free,
since `ubi_wl_get_peb` erases one where none is left.
-/
namespace UBoot.Ubi
open UBoot.Recovery List

def EEXIST : Int := 17
def ENFILE : Int := 23
def UBI_MAX_VOLUMES : Nat := 128
def UBI_VTBL_RECORD_SIZE : Nat := 172
def UBI_LAYOUT_VOLUME_EBS : Nat := 2
def WL_RESERVED_PEBS : Nat := 1
def EBA_RESERVED_PEBS : Nat := 1

abbrev Fault := { ret : Int // ret ≤ 0 ∧ ret ≠ -ENOSPC }

def no_fault : Fault := ⟨0,by decide⟩

/-- A partition, with its bad blocks by number. `fm_pebs` is what fastmaps take,
    nothing without them. -/
structure UbiFlash where
  size : Nat
  erasesize : Nat
  leb_start : Nat
  bad : Nat → Bool
  bad_allowed : Bool
  bad_peb_limit : Nat
  fm_pebs : Nat
  inside : leb_start < erasesize

/-- `mapped` counts the logical eraseblocks that have a physical one. -/
structure Volume where
  name : String
  reserved_pebs : Nat
  usable_leb_size : Nat
  mapped : Nat

structure UbiDevice where
  leb_size : Nat
  vtbl_slots : Nat
  good_peb_count : Nat
  avail_pebs : Nat
  volumes : List Volume

section
variable (f : UbiFlash)

def UbiFlash.leb_size : Nat := f.erasesize-f.leb_start
def UbiFlash.peb_count : Nat := f.size/f.erasesize
def UbiFlash.bad_peb_count : Nat := if f.bad_allowed then ((List.range f.peb_count).filter f.bad).length else 0
def UbiFlash.good_peb_count : Nat := f.peb_count-f.bad_peb_count

/-- `ubi_attach` where every good block is empty: the volume table is created,
    then the parts of UBI reserve their blocks in turn. -/
def attach_empty : Except Int UbiDevice :=
  if f.good_peb_count < UBI_LAYOUT_VOLUME_EBS then .error (-ENOSPC)
  else
    let avail_pebs := f.good_peb_count-UBI_LAYOUT_VOLUME_EBS
    let reserved_pebs := WL_RESERVED_PEBS+f.fm_pebs
    if avail_pebs < reserved_pebs then .error (-ENOMEM)
    else
      let avail_pebs := avail_pebs-reserved_pebs
      if avail_pebs < EBA_RESERVED_PEBS then .error (-ENOSPC)
      else
        let avail_pebs := avail_pebs-EBA_RESERVED_PEBS
        let beb_rsvd_level := f.bad_peb_limit-f.bad_peb_count
        let beb_rsvd_pebs := if f.bad_allowed then min avail_pebs beb_rsvd_level else 0
        .ok ⟨f.leb_size,min (f.leb_size/UBI_VTBL_RECORD_SIZE) UBI_MAX_VOLUMES,f.good_peb_count,
          avail_pebs-beb_rsvd_pebs,[]⟩

end

def pebs (leb_size bytes : Nat) : Nat := (bytes+leb_size-1)/leb_size

section
variable (u : UbiDevice)

def pebs_in_use : Nat := UBI_LAYOUT_VOLUME_EBS+(u.volumes.map (·.mapped)).sum

/-- Whether an eraseblock is left after `taken` more were taken. -/
def ubi_wl_get_peb (taken : Nat) : Bool := pebs_in_use u+taken < u.good_peb_count

/-- Each copy of the table goes to a new eraseblock before the old one is given
    back. -/
def ubi_change_vtbl_record (taken : Nat) (fault : Fault) : Int :=
  if ubi_wl_get_peb u taken then fault.val else -ENOSPC

/-- The alignment is one, so that all of an eraseblock is usable. -/
def ubi_create_volume (name : String) (bytes : Nat) (fault : Fault) : Int × UbiDevice :=
  if u.volumes.length ≥ u.vtbl_slots then (-ENFILE,u)
  else if u.volumes.any (·.name = name) then (-EEXIST,u)
  else
    let reserved_pebs := pebs u.leb_size bytes
    if reserved_pebs > u.avail_pebs then (-ENOSPC,u)
    else
      let err := ubi_change_vtbl_record u 0 fault
      if err ≠ 0 then (err,u)
      else (0,{ u with
        avail_pebs := u.avail_pebs-reserved_pebs, volumes := u.volumes ++ [⟨name,reserved_pebs,u.leb_size,0⟩] })

def ubi_resize_volume (vol : Volume) (reserved_pebs : Nat) (fault : Fault) : Int × UbiDevice :=
  if reserved_pebs = vol.reserved_pebs then (0,u)
  else if reserved_pebs-vol.reserved_pebs > u.avail_pebs then (-ENOSPC,u)
  else
    let err := ubi_change_vtbl_record u 0 fault
    if err ≠ 0 then (err,u)
    else (0,{ u with
      avail_pebs := u.avail_pebs+vol.reserved_pebs-reserved_pebs
      volumes := u.volumes.map fun other =>
        if other.name = vol.name then { other with reserved_pebs := reserved_pebs } else other })

def ubi_start_update (name : String) (fault : Fault) : Int × UbiDevice :=
  let err := ubi_change_vtbl_record u 0 fault
  if err ≠ 0 then (err,u)
  else (0,{ u with volumes := u.volumes.map fun vol => if vol.name = name then { vol with mapped := 0 } else vol })

variable (usable_leb_size upd_bytes : Nat) (faults : Nat → Fault)

/-- The loop of `ubi_more_update_data`; the part for the middle of an eraseblock is
    its first round. An eraseblock is written once it is full or the update ends.
    It counts what was received and the eraseblocks that were written. -/
def update_loop : Nat → Nat → Nat → Nat → Int × Nat × Nat
  | 0, _, upd_received, written => (0,upd_received,written)
  | fuel+1, count, upd_received, written =>
    if count = 0 then (0,upd_received,written)
    else
      let offs := upd_received%usable_leb_size
      let len := min (usable_leb_size-offs) count
      if offs+len = usable_leb_size ∨ upd_received+len = upd_bytes then
        let err := if ubi_wl_get_peb u written then (faults written).val else -ENOSPC
        if err ≠ 0 then (err,upd_received,written)
        else update_loop fuel (count-len) (upd_received+len) (written+1)
      else update_loop fuel (count-len) (upd_received+len) written

def ubi_more_update_data (finish : Fault) (count upd_received written : Nat) : Int × Nat × Nat :=
  let count := if upd_received+count > upd_bytes then upd_bytes-upd_received else count
  let (err,upd_received,written) := update_loop u usable_leb_size upd_bytes faults (count+1) count upd_received written
  if err ≠ 0 then (err,upd_received,written)
  else if upd_received = upd_bytes then
    let err := ubi_change_vtbl_record u written finish
    (if err ≠ 0 then err else count,upd_received,written)
  else (0,upd_received,written)

end

/-- A device whose volumes hold nothing, with the eraseblocks accounted for: the
    two of the volume table, the two that are kept back, and those of the volumes
    and for more volumes. -/
structure Fresh (u : UbiDevice) : Prop where
  pos : 0 < u.leb_size
  usable : ∀ vol ∈ u.volumes, vol.usable_leb_size = u.leb_size
  empty : ∀ vol ∈ u.volumes, vol.mapped = 0
  accounted : u.avail_pebs+(u.volumes.map (·.reserved_pebs)).sum+UBI_LAYOUT_VOLUME_EBS+2 ≤ u.good_peb_count

theorem attach_fresh {f : UbiFlash} {u : UbiDevice} (attached : attach_empty f = .ok u) :
    Fresh u ∧ u.volumes = [] ∧ u.leb_size = f.leb_size := by
  have inside := f.inside
  rw [attach_empty] at attached
  by_cases table : f.good_peb_count < UBI_LAYOUT_VOLUME_EBS
  · rw [if_pos table] at attached
    cases attached
  rw [if_neg table] at attached
  by_cases wear : f.good_peb_count-UBI_LAYOUT_VOLUME_EBS < WL_RESERVED_PEBS+f.fm_pebs
  · rw [if_pos wear] at attached
    cases attached
  rw [if_neg wear] at attached
  by_cases eba : f.good_peb_count-UBI_LAYOUT_VOLUME_EBS-(WL_RESERVED_PEBS+f.fm_pebs) < EBA_RESERVED_PEBS
  · rw [if_pos eba] at attached
    cases attached
  rw [if_neg eba] at attached
  obtain rfl := Except.ok.inj attached
  rw [WL_RESERVED_PEBS] at wear
  rw [WL_RESERVED_PEBS,EBA_RESERVED_PEBS] at eba
  refine ⟨⟨?_,by simp,by simp,?_⟩,rfl,rfl⟩
  · dsimp only [UbiFlash.leb_size]
    omega
  · simp only [map_nil,sum_nil,WL_RESERVED_PEBS,EBA_RESERVED_PEBS]
    omega

section
variable {u : UbiDevice}

theorem Fresh.in_use (fresh : Fresh u) : pebs_in_use u = UBI_LAYOUT_VOLUME_EBS := by
  have none_ : u.volumes.map (·.mapped) = u.volumes.map fun _ => 0 := map_congr_left fresh.empty
  rw [pebs_in_use,none_]
  simp

theorem Fresh.get_peb (fresh : Fresh u) {taken : Nat} (few : taken ≤ (u.volumes.map (·.reserved_pebs)).sum) :
    ubi_wl_get_peb u taken = true := by
  have accounted := fresh.accounted
  rw [ubi_wl_get_peb,fresh.in_use,decide_eq_true_eq]
  omega

theorem Fresh.change_record (fresh : Fresh u) {taken : Nat} (few : taken ≤ (u.volumes.map (·.reserved_pebs)).sum)
    (fault : Fault) : ubi_change_vtbl_record u taken fault = fault.val := by
  rw [ubi_change_vtbl_record,if_pos (fresh.get_peb few)]

def with_volume (u : UbiDevice) (name : String) (bytes : Nat) : UbiDevice :=
  { u with
    avail_pebs := u.avail_pebs-pebs u.leb_size bytes
    volumes := u.volumes ++ [⟨name,pebs u.leb_size bytes,u.leb_size,0⟩] }

theorem Fresh.with_volume (fresh : Fresh u) (name : String) {bytes : Nat} (room : pebs u.leb_size bytes ≤ u.avail_pebs) :
    Fresh (with_volume u name bytes) where
  pos := fresh.pos
  usable vol member := by
    rcases mem_append.mp member with old | new
    · exact fresh.usable vol old
    · rw [mem_singleton.mp new]
      rfl
  empty vol member := by
    rcases mem_append.mp member with old | new
    · exact fresh.empty vol old
    · rw [mem_singleton.mp new]
  accounted := by
    have accounted := fresh.accounted
    simp only [Ubi.with_volume,map_append,sum_append,map_cons,map_nil,sum_cons,sum_nil]
    omega

/-- What a device answers to a new volume. -/
theorem create_spec (fresh : Fresh u) (name : String) (bytes : Nat) (fault : Fault) :
    ubi_create_volume u name bytes fault =
      if u.volumes.length ≥ u.vtbl_slots then (-ENFILE,u)
      else if u.volumes.any (·.name = name) then (-EEXIST,u)
      else if pebs u.leb_size bytes > u.avail_pebs then (-ENOSPC,u)
      else if fault.val ≠ 0 then (fault.val,u)
      else (0,with_volume u name bytes) := by
  rw [ubi_create_volume]
  rw [fresh.change_record (Nat.zero_le _)]
  rfl

end

section
variable {u : UbiDevice} {leb total : Nat} {faults : Nat → Fault}

def Filled (leb total received written : Nat) : Prop := received ≤ total ∧ (received < total → written ≤ received/leb) ∧
  written ≤ pebs leb total

theorem update_loop_room (pos : 0 < leb) (room : ∀ taken, taken < pebs leb total → ubi_wl_get_peb u taken = true) (fuel : Nat) :
    ∀ (count received written : Nat), received+count ≤ total → Filled leb total received written →
      (update_loop u leb total faults fuel count received written).1 ≠ -ENOSPC ∧
        Filled leb total (update_loop u leb total faults fuel count received written).2.1
          (update_loop u leb total faults fuel count received written).2.2 := by
  have zero : (0 : Int) ≠ -ENOSPC := by decide
  induction fuel with
  | zero =>
    intro count received written inside filled
    exact ⟨zero,filled⟩
  | succ fuel ih =>
    intro count received written inside filled
    rw [update_loop]
    by_cases done : count = 0
    · rw [if_pos done]
      exact ⟨zero,filled⟩
    rw [if_neg done]
    dsimp only
    obtain ⟨-,full,few⟩ := filled
    have full := full (by omega)
    have split_ := Nat.div_add_mod received leb
    have low := Nat.mod_lt received pos
    have within := min_le_left (leb-received%leb) count
    have given := min_le_right (leb-received%leb) count
    generalize min (leb-received%leb) count = len at within given ⊢
    have next : received+len ≤ total := by omega
    by_cases flush : received%leb+len = leb ∨ received+len = total
    · rw [if_pos flush]
      have more : written < pebs leb total := by
        have less : received/leb < pebs leb total := by
          rw [pebs,Nat.lt_iff_add_one_le,Nat.le_div_iff_mul_le pos,add_mul,mul_comm]
          omega
        omega
      rw [room written more,if_pos rfl]
      by_cases failed : (faults written).val ≠ 0
      · rw [if_pos failed]
        have low : received ≤ total := by omega
        exact ⟨(faults written).property.2,low,fun _ => full,few⟩
      rw [if_neg failed]
      refine ih _ _ _ (by omega) ⟨next,?_,more⟩
      intro still
      have multiple : received+len = leb*(received/leb+1) := by
        rw [mul_add]
        omega
      rw [multiple,Nat.mul_div_cancel_left _ pos]
      omega
    · rw [if_neg flush]
      refine ih _ _ _ (by omega) ⟨next,fun _ => full.trans (Nat.div_le_div_right (by omega)),few⟩

/-- So does the whole of the data that comes at once. -/
theorem more_data_room (pos : 0 < leb) (room : ∀ taken, taken ≤ pebs leb total → ubi_wl_get_peb u taken = true)
    (finish : Fault) (count : Nat) {received written : Nat} (filled : Filled leb total received written) :
    (ubi_more_update_data u leb total faults finish count received written).1 ≠ -ENOSPC ∧
      Filled leb total (ubi_more_update_data u leb total faults finish count received written).2.1
        (ubi_more_update_data u leb total faults finish count received written).2.2 := by
  have zero : (0 : Int) ≠ -ENOSPC := by decide
  rw [ubi_more_update_data]
  dsimp only
  generalize taken : (if received+count > total then total-received else count) = part
  have low := filled.1
  have inside : received+part ≤ total := by
    rw [← taken]
    split <;> omega
  obtain ⟨fine,still⟩ := @update_loop_room u leb total faults pos (fun taken less => room taken less.le) (part+1) part
    received written inside filled
  generalize update_loop u leb total faults (part+1) part received written = result at fine still ⊢
  by_cases failed : result.1 ≠ 0
  · rw [if_pos failed]
    exact ⟨fine,still⟩
  rw [if_neg failed]
  by_cases last : result.2.1 = total
  · rw [if_pos last,ubi_change_vtbl_record,if_pos (room _ still.2.2)]
    refine ⟨?_,still⟩
    by_cases unfinished : finish.val ≠ 0
    · rw [if_pos unfinished]
      exact finish.property.2
    · rw [if_neg unfinished,ENOSPC]
      omega
  · rw [if_neg last]
    exact ⟨zero,still⟩

end

end UBoot.Ubi
