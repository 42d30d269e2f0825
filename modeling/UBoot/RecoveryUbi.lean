import UBoot.UbiSpace
import UBoot.RecoveryResolve

/-!
Firmware for a UBI volume in `net/lwip/httpd_recovery.c`: the limit that an upload
is admitted by, and the rebuild of the partition that `flash_image` begins then.
The limit is that of the device as it stands, or the size of the partition; the
rebuild erases the partition, and what the volumes find afterwards is what UBI
makes of empty blocks.
-/
namespace UBoot.Recovery
open UBoot.Ubi List Option

def ENAMETOOLONG : Int := 36
def UBI_VOL_NAME_MAX : Nat := 127
def RECOVERY_FACTORY_SIZE : Nat := 1*1024*1024
def RECOVERY_UBI_WRITE_CHUNK : Nat := 1024*1024

/-- The partition and what is known of the board: whether it has a layout of its
    own, whether the partition has the geometry of that, and the rest. -/
structure UbiSetting where
  flash : UbiFlash
  active : Bool
  mtd_ubi_valid : Bool
  compatible : String → Bool
  env_get : String → Option String

inductive UbiOp where
  | erase
  | create (name : String) (ret : Int)
  | resize (ret : Int)
  | write (ret : Int)
  deriving DecidableEq, Repr

def UbiOp.ret : UbiOp → Int
  | .erase => 0
  | .create _ ret => ret
  | .resize ret => ret
  | .write ret => ret

/-- The attached device, the device that attaching would find, `struct
    recovery_target` as far as it changes, whether the partition was formatted,
    and what was asked so far. -/
structure UbiWorld where
  ubi : Option UbiDevice
  found : Option UbiDevice
  cur_size : Nat
  limit : Nat
  ubi_needs_format : Bool
  reformatted : Bool
  ops : List UbiOp

/-- What goes wrong besides. `attach` says that the erased partition cannot be
    attached for another reason than its size. -/
structure UbiFaults where
  device : Fault
  erase : Int
  attach : Bool
  open_volume : String → Fault
  create : String → Fault
  resize : Fault
  start : Fault
  write : Nat → Fault
  finish : Fault
  check : Fault

def andThen (r : Int × UbiWorld) (next : UbiWorld → Int × UbiWorld) : Int × UbiWorld :=
  if r.1 ≠ 0 then r else next r.2

section
variable (x : UbiSetting)

def ubi_volume : String :=
  if x.active then "fit"
  else (x.env_get (recovery_target_env .TARGET_FIRMWARE)).getD (recovery_default_target .TARGET_FIRMWARE)

def xg2010g : Bool :=
  x.compatible "naoki,xg2010g" || x.compatible "econet,xg2010g" || x.compatible "econet,xg2010g-ubi" ||
    x.compatible "gemtek,xg2010g" || x.compatible "gemtek,xg2010g-ubi"

def w1700k : Bool := x.compatible "gemtek,w1700k" || x.compatible "gemtek,w1700k-ubi"

def recovery_preserve_ubi_volume (name : String) : Bool :=
  if name = "" then true
  else if xg2010g x then name = "factory"
  else if w1700k x then name = "factory"
  else false

/-- A device that is attached stays; a partition that cannot be attached counts as
    an error only on a board with a layout of its own. -/
def recovery_select_ubi (w : UbiWorld) : Int × UbiWorld :=
  match w.ubi with
  | some _ => (if x.active ∧ x.mtd_ubi_valid = false then -EINVAL else 0,w)
  | none =>
    let w := { w with ubi := w.found }
    (if x.active ∧ (w.ubi.isNone ∨ x.mtd_ubi_valid = false) then -EINVAL else 0,w)

variable (faults : UbiFaults)

def ubi_open_volume (u : UbiDevice) (name : String) : Option Volume :=
  if (faults.open_volume name).val ≠ 0 then none else u.volumes.find? (·.name = name)

def recovery_try_ubi_target (w : UbiWorld) : Int × UbiWorld :=
  let (ret,w) := recovery_select_ubi x w
  if ret ≠ 0 then
    if faults.device.val ≠ 0 then (-ENODEV,w)
    else if x.active ∧ x.mtd_ubi_valid = false then (-EINVAL,w)
    else (0,{ w with cur_size := 0, limit := x.flash.size, ubi_needs_format := true })
  else
    match w.ubi with
    | none => (-ENODEV,w)
    | some u =>
      match ubi_open_volume faults u (ubi_volume x) with
      | none => (0,{ w with ubi_needs_format := false, cur_size := 0, limit := u.avail_pebs*u.leb_size })
      | some vol => (0,{ w with
          ubi_needs_format := false, cur_size := vol.reserved_pebs*vol.usable_leb_size
          limit := (vol.reserved_pebs+u.avail_pebs)*vol.usable_leb_size })

/-- The volumes that would be removed count, each with all of its blocks. -/
def recovery_calc_rebuild_ubi_limit (w : UbiWorld) : Nat :=
  if w.ubi_needs_format then w.limit
  else
    let (ret,w) := recovery_select_ubi x w
    if ret ≠ 0 then w.limit
    else
      match w.ubi with
      | none => w.limit
      | some u => u.avail_pebs*u.leb_size+((u.volumes.filter fun vol => !recovery_preserve_ubi_volume x vol.name).map
          fun vol => vol.reserved_pebs*vol.usable_leb_size).sum

/-- The device is detached, and the whole partition is the limit. -/
def recovery_force_ubi_rebuild (w : UbiWorld) : Int × UbiWorld :=
  let w := { w with ubi := none }
  if faults.device.val ≠ 0 then (faults.device.val,w)
  else (0,{ w with cur_size := 0, limit := x.flash.size, ubi_needs_format := true })

/-- The erase is refused where the partition is not made of whole eraseblocks. What
    was found before it is gone afterwards. -/
def recovery_prepare_ubi_target (w : UbiWorld) : Int × UbiWorld :=
  let w := { w with reformatted := false }
  if w.ubi_needs_format = false then recovery_select_ubi x w
  else if x.flash.size%x.flash.erasesize ≠ 0 then (-EINVAL,w)
  else
    let w := { w with
      found := if faults.attach then none else (attach_empty x.flash).toOption, ops := w.ops ++ [.erase] }
    if faults.erase ≠ 0 then (faults.erase,w)
    else
      andThen (recovery_select_ubi x w) fun w => (0,{ w with
        limit := match w.ubi with
          | none => w.limit
          | some u => u.avail_pebs*u.leb_size
        cur_size := 0, ubi_needs_format := false, reformatted := true })

/-- A volume is created on the attached device, as both functions that do so do. -/
def create_volume (name : String) (bytes : Nat) (w : UbiWorld) : Int × UbiWorld :=
  match w.ubi with
  | none => (-ENODEV,w)
  | some u =>
    if name.utf8ByteSize > UBI_VOL_NAME_MAX then (-ENAMETOOLONG,w)
    else
      let (ret,u) := ubi_create_volume u name bytes (faults.create name)
      (ret,{ w with ubi := some u, ops := w.ops ++ [.create name ret] })

def recovery_create_ubi_volume (name : String) (size : Nat) (w : UbiWorld) : Int × UbiWorld :=
  let left := match w.ubi with
    | none => 0
    | some u => u.avail_pebs*u.leb_size
  create_volume faults name (if size = 0 then left else size) w

def recovery_create_ubi_target (new_size : Nat) (w : UbiWorld) : Int × UbiWorld :=
  let (ret,w) := recovery_select_ubi x w
  if ret ≠ 0 then (-ENODEV,w)
  else andThen (create_volume faults (ubi_volume x) new_size w) (recovery_try_ubi_target x faults)

def recovery_resize_ubi_target (new_size : Nat) (w : UbiWorld) : Int × UbiWorld :=
  let (ret,w) := recovery_select_ubi x w
  if ret ≠ 0 then (-ENODEV,w)
  else
    match w.ubi.bind fun u => (ubi_open_volume faults u (ubi_volume x)).map fun vol => (u,vol) with
    | none => (-ENODEV,w)
    | some (u,vol) =>
      let needed_pebs := pebs vol.usable_leb_size new_size
      let (ret,u) := ubi_resize_volume u vol needed_pebs faults.resize
      let w := { w with ubi := some u, ops := w.ops ++ [.resize ret] }
      if ret ≠ 0 then (ret,w)
      else (0,{ w with
        cur_size := needed_pebs*vol.usable_leb_size, limit := (needed_pebs+u.avail_pebs)*vol.usable_leb_size })

def recovery_ensure_ubi_volume_named (name : String) (size : Nat) (w : UbiWorld) : Int × UbiWorld :=
  match w.ubi.bind fun u => ubi_open_volume faults u name with
  | some _ => (0,w)
  | none =>
    let (ret,w) := recovery_create_ubi_volume faults name size w
    (if ret = -EEXIST then 0 else ret,w)

def recovery_ensure_preserved_ubi_volumes (w : UbiWorld) : Int × UbiWorld :=
  let (ret,w) := recovery_select_ubi x w
  if ret ≠ 0 then (-ENODEV,w)
  else if xg2010g x || w1700k x then recovery_ensure_ubi_volume_named faults "factory" RECOVERY_FACTORY_SIZE w
  else (0,w)

def recovery_ensure_rootfs_data (w : UbiWorld) : Int × UbiWorld :=
  let (ret,w) := recovery_select_ubi x w
  if ret ≠ 0 then (-ENODEV,w) else recovery_ensure_ubi_volume_named faults "rootfs_data" 0 w

def ubi_write_loop (u : UbiDevice) (leb image_size : Nat) : Nat → Nat → Nat → Nat → Int
  | 0, _, _, _ => 0
  | fuel+1, written, upd_received, upd_written =>
    if written < image_size then
      let chunk := min RECOVERY_UBI_WRITE_CHUNK (image_size-written)
      let (ret,upd_received,upd_written) :=
        ubi_more_update_data u leb image_size faults.write faults.finish chunk upd_received upd_written
      if ret < 0 then ret else ubi_write_loop u leb image_size fuel (written+chunk) upd_received upd_written
    else 0

/-- A chunk has at least one byte. What the device looks like afterwards is not
    asked. -/
def ubi_update (u : UbiDevice) (image_size : Nat) (vol : Volume) : Int :=
  if image_size > vol.reserved_pebs*vol.usable_leb_size then -EFBIG
  else
    let (ret,u) := ubi_start_update u vol.name faults.start
    if ret ≠ 0 then ret
    else
      let ret := ubi_write_loop faults u vol.usable_leb_size image_size (image_size+1) 0 0 0
      if ret < 0 then ret else -faults.check.val

def recovery_write_ubi_target (image_size : Nat) (w : UbiWorld) : Int × UbiWorld :=
  let (ret,w) := recovery_select_ubi x w
  if ret ≠ 0 then (-ENODEV,w)
  else
    match w.ubi.bind fun u => (ubi_open_volume faults u (ubi_volume x)).map fun vol => (u,vol) with
    | none => (-ENODEV,w)
    | some (u,vol) =>
      let ret := ubi_update faults u image_size vol
      (ret,{ w with ops := w.ops ++ [.write ret] })

/-- The branch of `flash_image` for a UBI target, which only firmware has. `cleanup`
    is what happens to a device that was not formatted; after
    `recovery_force_ubi_rebuild` there is none. -/
def flash_ubi_image (cleanup : UbiWorld → Int × UbiWorld) (image_size : Nat) (w : UbiWorld) : Int × UbiWorld :=
  andThen (recovery_force_ubi_rebuild x faults w) fun w =>
    let w := { w with limit := recovery_calc_rebuild_ubi_limit x w }
    if image_size > w.limit then (-EFBIG,w)
    else
      andThen (recovery_prepare_ubi_target x faults w) fun w =>
        andThen (if w.reformatted then (0,w) else cleanup w) fun w =>
          andThen (if w.cur_size = 0 then recovery_create_ubi_target x faults image_size w
              else if image_size > w.cur_size then recovery_resize_ubi_target x faults image_size w
              else (0,w)) fun w =>
            andThen (recovery_ensure_preserved_ubi_volumes x faults w) fun w =>
              andThen (recovery_ensure_rootfs_data x faults w) (recovery_write_ubi_target x faults image_size)

theorem enodev_neg : -ENODEV < 0 := by decide

/-- The setup in which firmware resolves to UBI from the given world. -/
def ubi_setup (cleanup : UbiWorld → Int × UbiWorld) (w : UbiWorld) (setup : Setup UbiWorld) : Setup UbiWorld :=
  let resolved := recovery_try_ubi_target x faults w
  { setup with
    resolve_firmware :=
      if resolved.1 ≠ 0 then .error ⟨-ENODEV,enodev_neg⟩ else .ok ⟨.RECOVERY_BACKEND_UBI,none,0,resolved.2.limit⟩
    flash_ubi := fun _ image s =>
      let r := flash_ubi_image x faults cleanup image.length resolved.2
      (r.1,{ s with world := r.2 }) }

end

/-- Something that was asked after the erase did not find the space. -/
def LacksSpace (ops : List UbiOp) : Prop :=
  ∃ front op back, ops = front ++ op :: back ∧ .erase ∈ front ∧ op.ret = -ENOSPC

/-- The rebuild gets to the volumes, on the device `u`. -/
structure Reached (x : UbiSetting) (image_size : Nat) (u : UbiDevice) : Prop where
  size : image_size ≤ x.flash.size
  whole : x.flash.size%x.flash.erasesize = 0
  valid : ¬ (x.active ∧ x.mtd_ubi_valid = false)
  attached : attach_empty x.flash = .ok u

/-- The volumes that are created find their blocks: that of the firmware, and the one
    that the board wants besides. The table of volumes may be full before. -/
def PartitionFits (x : UbiSetting) (image_size : Nat) (u : UbiDevice) : Prop :=
  UBI_VOL_NAME_MAX < (ubi_volume x).utf8ByteSize ∨ u.vtbl_slots = 0 ∨
    (pebs u.leb_size image_size ≤ u.avail_pebs ∧
      ((xg2010g x || w1700k x) = true → ubi_volume x ≠ "factory" → 1 < u.vtbl_slots →
        pebs u.leb_size image_size+pebs u.leb_size RECOVERY_FACTORY_SIZE ≤ u.avail_pebs))

def RebuildFits (x : UbiSetting) (image_size : Nat) : Prop := ∀ u, Reached x image_size u → PartitionFits x image_size u

def Quiet (w : UbiWorld) : Prop := ∀ op ∈ w.ops, op.ret ≠ -ENOSPC

theorem quiet_not_lacking {w : UbiWorld} (quiet : Quiet w) : ¬ LacksSpace w.ops := by
  rintro ⟨front,op,back,ops,-,lacking⟩
  exact quiet op (by simp [ops]) lacking

theorem andThen_step {P : UbiWorld → Prop} {r : Int × UbiWorld} {next : UbiWorld → Int × UbiWorld} (here : P r.2)
    (later : r.1 = 0 → P (next r.2).2) : P (andThen r next).2 := by
  rw [andThen]
  by_cases failed : r.1 ≠ 0
  · rw [if_pos failed]
    exact here
  · rw [if_neg failed]
    exact later (not_not.mp failed)

theorem andThen_good {r : Int × UbiWorld} (good : r.1 = 0) (next : UbiWorld → Int × UbiWorld) :
    andThen r next = next r.2 := by
  rw [andThen,if_neg (not_not.mpr good)]

section
variable {x : UbiSetting} {faults : UbiFaults} {w : UbiWorld}

theorem select_world : (recovery_select_ubi x w).2 = { w with ubi := w.ubi.or w.found } := by
  rw [recovery_select_ubi]
  obtain ⟨ubi,found,cur_size,limit,needs_format,reformatted,ops⟩ := w
  cases ubi with
  | none => rfl
  | some u => rfl

theorem select_same (gone : w.ubi = none → w.found = none) : ∃ ret, recovery_select_ubi x w = (ret,w) := by
  refine ⟨(recovery_select_ubi x w).1,Prod.ext rfl ?_⟩
  rw [select_world]
  obtain ⟨ubi,found,cur_size,limit,needs_format,reformatted,ops⟩ := w
  cases ubi with
  | none =>
    have none_ : found = none := gone rfl
    rw [none_]
    rfl
  | some u => rfl

theorem try_world : ∃ cur_size limit needs_format, (recovery_try_ubi_target x faults w).2 =
    { w with ubi := w.ubi.or w.found, cur_size := cur_size, limit := limit, ubi_needs_format := needs_format } := by
  have same := @select_world x w
  rw [recovery_try_ubi_target]
  generalize recovery_select_ubi x w = r at same
  obtain ⟨ret,w'⟩ := r
  dsimp only at same ⊢
  rw [same]
  split
  · split
    · exact ⟨_,_,_,rfl⟩
    · split
      · exact ⟨_,_,_,rfl⟩
      · exact ⟨_,_,_,rfl⟩
  · dsimp only
    cases w.ubi.or w.found with
    | none => exact ⟨_,_,_,rfl⟩
    | some u =>
      dsimp only
      cases ubi_open_volume faults u (ubi_volume x) with
      | none | some vol => exact ⟨_,_,_,rfl⟩

/-- The partition has been formatted, and nothing lacked space so far. -/
structure Rebuilt (w : UbiWorld) : Prop where
  quiet : Quiet w
  fresh : ∀ u, w.ubi = some u → Fresh u
  gone : w.ubi = none → w.found = none

theorem Rebuilt.same_device {w' : UbiWorld} (rebuilt : Rebuilt w) (ubi : w'.ubi = w.ubi) (found : w'.found = w.found)
    (ops : w'.ops = w.ops) : Rebuilt w' where
  quiet op member := rebuilt.quiet op (ops ▸ member)
  fresh u is := rebuilt.fresh u (ubi ▸ is)
  gone none_ := found.trans (rebuilt.gone (ubi ▸ none_))

theorem Rebuilt.try_same (rebuilt : Rebuilt w) : (recovery_try_ubi_target x faults w).2.ubi = w.ubi ∧
    Rebuilt (recovery_try_ubi_target x faults w).2 := by
  obtain ⟨cur_size,limit,needs_format,same⟩ := @try_world x faults w
  have ubi : w.ubi.or w.found = w.ubi := by
    cases device : w.ubi with
    | none => exact rebuilt.gone device
    | some u => rfl
  rw [same,ubi]
  exact ⟨rfl,rebuilt.same_device rfl rfl rfl⟩

def VolumeFits (w : UbiWorld) (name : String) (bytes : Nat) : Prop :=
  ∀ u, w.ubi = some u → name.utf8ByteSize ≤ UBI_VOL_NAME_MAX → u.volumes.length < u.vtbl_slots →
    u.volumes.any (·.name = name) = false → pebs u.leb_size bytes ≤ u.avail_pebs

theorem create_volume_rebuilt (rebuilt : Rebuilt w) {name : String} {bytes : Nat} (fits : VolumeFits w name bytes) :
    Rebuilt (create_volume faults name bytes w).2 ∧ ((create_volume faults name bytes w).1 = 0 →
      ∃ u, w.ubi = some u ∧ name.utf8ByteSize ≤ UBI_VOL_NAME_MAX ∧ u.volumes.length < u.vtbl_slots ∧
        (create_volume faults name bytes w).2.ubi = some (with_volume u name bytes)) := by
  rw [create_volume]
  cases device : w.ubi with
  | none => exact ⟨rebuilt,fun good => absurd good (show -ENODEV ≠ 0 by decide)⟩
  | some u =>
    dsimp only
    by_cases long : name.utf8ByteSize > UBI_VOL_NAME_MAX
    · rw [if_pos long]
      exact ⟨rebuilt,fun good => absurd good (show -ENAMETOOLONG ≠ 0 by decide)⟩
    rw [if_neg long,create_spec (rebuilt.fresh u device)]
    -- An answer that leaves the device as it is.
    have unchanged : ∀ ret : Int, ret ≠ 0 → ret ≠ -ENOSPC →
        Rebuilt { w with ubi := some u, ops := w.ops ++ [.create name ret] } := by
      intro ret _ other
      refine ⟨?_,fun u' same => rebuilt.fresh u' (device.trans same),fun none_ => by cases none_⟩
      intro op member
      rcases mem_append.mp member with early | now
      · exact rebuilt.quiet op early
      · rw [mem_singleton.mp now]
        exact other
    by_cases full : u.volumes.length ≥ u.vtbl_slots
    · rw [if_pos full]
      have failed : -ENFILE ≠ 0 := by decide
      exact ⟨unchanged _ failed (show -ENFILE ≠ -ENOSPC by decide),fun good => absurd good failed⟩
    rw [if_neg full]
    by_cases exists_ : u.volumes.any (·.name = name) = true
    · rw [if_pos exists_]
      have failed : -EEXIST ≠ 0 := by decide
      exact ⟨unchanged _ failed (show -EEXIST ≠ -ENOSPC by decide),fun good => absurd good failed⟩
    rw [if_neg exists_]
    have room := fits u device (by omega) (by omega) (by simpa using exists_)
    rw [if_neg (not_lt.mpr room)]
    by_cases failed : (faults.create name).val ≠ 0
    · rw [if_pos failed]
      exact ⟨unchanged _ failed (faults.create name).property.2,fun good => absurd good failed⟩
    rw [if_neg failed]
    refine ⟨⟨?_,?_,fun none_ => by cases none_⟩,fun _ => ⟨u,rfl,by omega,by omega,rfl⟩⟩
    · intro op member
      rcases mem_append.mp member with early | now
      · exact rebuilt.quiet op early
      · rw [mem_singleton.mp now]
        exact (show (0 : Int) ≠ -ENOSPC by decide)
    · intro u' same
      rw [← Option.some.inj same]
      exact (rebuilt.fresh u device).with_volume name room

theorem pebs_mul {leb : Nat} (pos : 0 < leb) (n : Nat) : pebs leb (n*leb) = n := by
  rw [pebs,Nat.add_sub_assoc (Nat.succ_le_of_lt pos),mul_comm,Nat.mul_add_div pos,
    Nat.div_eq_of_lt (Nat.sub_lt pos Nat.one_pos),add_zero]

theorem ensure_rebuilt (rebuilt : Rebuilt w) {name : String} {size : Nat} (fits : size ≠ 0 → VolumeFits w name size) :
    Rebuilt (recovery_ensure_ubi_volume_named faults name size w).2 := by
  rw [recovery_ensure_ubi_volume_named]
  cases w.ubi.bind fun u => ubi_open_volume faults u name with
  | some vol => exact rebuilt
  | none =>
    dsimp only [recovery_create_ubi_volume]
    by_cases rest : size = 0
    · rw [if_pos rest]
      refine (create_volume_rebuilt rebuilt ?_).1
      intro u device _ _ _
      rw [device]
      exact (pebs_mul (rebuilt.fresh u device).pos u.avail_pebs).le
    · rw [if_neg rest]
      exact (create_volume_rebuilt rebuilt (fits rest)).1

theorem write_loop_space {u : UbiDevice} {leb image_size : Nat} (pos : 0 < leb)
    (room : ∀ taken, taken ≤ pebs leb image_size → ubi_wl_get_peb u taken = true) (fuel : Nat) :
    ∀ (written received upd_written : Nat), Filled leb image_size received upd_written →
      ubi_write_loop faults u leb image_size fuel written received upd_written ≠ -ENOSPC := by
  have zero : (0 : Int) ≠ -ENOSPC := by decide
  induction fuel with
  | zero =>
    intro written received upd_written filled
    exact zero
  | succ fuel ih =>
    intro written received upd_written filled
    rw [ubi_write_loop]
    by_cases more : written < image_size
    · rw [if_pos more]
      dsimp only
      obtain ⟨fine,still⟩ := @more_data_room u leb image_size faults.write pos room faults.finish
        (min RECOVERY_UBI_WRITE_CHUNK (image_size-written)) received upd_written filled
      generalize ubi_more_update_data u leb image_size faults.write faults.finish
        (min RECOVERY_UBI_WRITE_CHUNK (image_size-written)) received upd_written = result at fine still ⊢
      by_cases failed : result.1 < 0
      · rw [if_pos failed]
        exact fine
      · rw [if_neg failed]
        exact ih _ _ _ still
    · rw [if_neg more]
      exact zero

theorem update_space {u : UbiDevice} (fresh : Fresh u) {vol : Volume} (member : vol ∈ u.volumes) (image_size : Nat) :
    ubi_update faults u image_size vol ≠ -ENOSPC := by
  rw [ubi_update]
  by_cases large : image_size > vol.reserved_pebs*vol.usable_leb_size
  · rw [if_pos large]
    exact (show -EFBIG ≠ -ENOSPC by decide)
  rw [if_neg large,ubi_start_update,fresh.change_record (Nat.zero_le _)]
  dsimp only
  by_cases unstarted : faults.start.val ≠ 0
  · rw [if_pos unstarted,if_pos unstarted]
    exact faults.start.property.2
  rw [if_neg unstarted,if_neg (not_not.mpr rfl)]
  generalize same : (u.volumes.map fun other => if other.name = vol.name then { other with mapped := 0 } else other) =
    volumes
  -- Wiping the volume leaves all reservations as they are.
  have reserved : volumes.map (·.reserved_pebs) = u.volumes.map (·.reserved_pebs) := by
    rw [← same,List.map_map]
    apply map_congr_left
    intro other _
    dsimp only [Function.comp]
    split <;> rfl
  have wiped : Fresh { u with volumes := volumes } := by
    refine ⟨fresh.pos,?_,?_,?_⟩
    · intro other inside
      rw [← same] at inside
      obtain ⟨old,was,rfl⟩ := List.mem_map.mp inside
      split
      · exact fresh.usable old was
      · exact fresh.usable old was
    · intro other inside
      rw [← same] at inside
      obtain ⟨old,was,rfl⟩ := List.mem_map.mp inside
      split
      · rfl
      · exact fresh.empty old was
    · dsimp only
      rw [reserved]
      exact fresh.accounted
  have leb := fresh.usable vol member
  have pos : 0 < vol.usable_leb_size := leb ▸ fresh.pos
  have room : ∀ taken, taken ≤ pebs vol.usable_leb_size image_size →
      ubi_wl_get_peb { u with volumes := volumes } taken = true := by
    intro taken few
    apply wiped.get_peb
    have own : vol.reserved_pebs ≤ (u.volumes.map (·.reserved_pebs)).sum :=
      single_le_sum (fun _ _ => Nat.zero_le _) _ (List.mem_map_of_mem member)
    have enough : pebs vol.usable_leb_size image_size ≤ pebs vol.usable_leb_size (vol.reserved_pebs*vol.usable_leb_size) :=
      Nat.div_le_div_right (by omega)
    rw [pebs_mul pos] at enough
    dsimp only
    rw [reserved]
    omega
  have looped := @write_loop_space faults { u with volumes := volumes } vol.usable_leb_size image_size pos room
    (image_size+1) 0 0 0 ⟨Nat.zero_le _,fun _ => Nat.zero_le _,Nat.zero_le _⟩
  generalize ubi_write_loop faults { u with volumes := volumes } vol.usable_leb_size image_size (image_size+1) 0 0 0 =
    ret at looped ⊢
  by_cases failed : ret < 0
  · rw [if_pos failed]
    exact looped
  · rw [if_neg failed]
    have code : ENOSPC = 28 := rfl
    have low := faults.check.property.1
    omega

theorem write_quiet (rebuilt : Rebuilt w) (image_size : Nat) : Quiet (recovery_write_ubi_target x faults image_size w).2 := by
  obtain ⟨ret,selected⟩ := @select_same x w rebuilt.gone
  rw [recovery_write_ubi_target,selected]
  dsimp only
  by_cases failed : ret ≠ 0
  · rw [if_pos failed]
    exact rebuilt.quiet
  rw [if_neg failed]
  cases opened : w.ubi.bind fun u => (ubi_open_volume faults u (ubi_volume x)).map fun vol => (u,vol) with
  | none => exact rebuilt.quiet
  | some pair =>
    obtain ⟨u,device,vol_opened⟩ := bind_eq_some_iff.mp opened
    obtain ⟨vol,found,rfl⟩ := map_eq_some_iff.mp vol_opened
    have member : vol ∈ u.volumes := by
      rw [ubi_open_volume] at found
      split at found
      · cases found
      · exact mem_of_find?_eq_some found
    intro op asked
    rcases mem_append.mp asked with early | now
    · exact rebuilt.quiet op early
    · rw [mem_singleton.mp now]
      exact update_space (rebuilt.fresh u device) member image_size

theorem prepare_rebuilt (format : w.ubi_needs_format = true) (detached : w.ubi = none) (ops : w.ops = []) :
    Quiet (recovery_prepare_ubi_target x faults w).2 ∧ ((recovery_prepare_ubi_target x faults w).1 = 0 →
      Rebuilt (recovery_prepare_ubi_target x faults w).2 ∧ (recovery_prepare_ubi_target x faults w).2.reformatted = true ∧
      (recovery_prepare_ubi_target x faults w).2.cur_size = 0 ∧ x.flash.size%x.flash.erasesize = 0 ∧
      ∀ u, (recovery_prepare_ubi_target x faults w).2.ubi = some u →
        ¬ (x.active = true ∧ x.mtd_ubi_valid = false) ∧ attach_empty x.flash = .ok u) := by
  have before : ∀ op ∈ w.ops, op.ret ≠ -ENOSPC := by simp [ops]
  have erased : ∀ op ∈ w.ops ++ [UbiOp.erase], op.ret ≠ -ENOSPC := by
    rw [ops,nil_append]
    intro op member
    rw [mem_singleton.mp member]
    exact (show (0 : Int) ≠ -ENOSPC by decide)
  rw [recovery_prepare_ubi_target]
  dsimp only
  rw [if_neg (by simp [format])]
  by_cases partial_ : x.flash.size%x.flash.erasesize ≠ 0
  · rw [if_pos partial_]
    exact ⟨before,fun good => absurd good (show -EINVAL ≠ 0 by decide)⟩
  rw [if_neg partial_]
  by_cases unerased : faults.erase ≠ 0
  · rw [if_pos unerased]
    exact ⟨erased,fun good => absurd good unerased⟩
  rw [if_neg unerased]
  generalize attached : (if faults.attach = true then none else (attach_empty x.flash).toOption) = found
  have is_attached : ∀ u, found = some u → attach_empty x.flash = .ok u := by
    intro u is
    rw [← attached] at is
    split at is
    · cases is
    · cases result : attach_empty x.flash with
      | error err =>
        rw [result] at is
        cases is
      | ok device =>
        rw [result] at is
        rw [Option.some.inj is]
  rw [recovery_select_ubi,detached]
  dsimp only
  by_cases refused : x.active = true ∧ (found.isNone = true ∨ x.mtd_ubi_valid = false)
  · rw [if_pos refused]
    have failed : -EINVAL ≠ 0 := by decide
    rw [andThen,if_pos failed]
    exact ⟨erased,fun good => absurd good failed⟩
  · rw [if_neg refused,andThen_good rfl]
    refine ⟨erased,fun _ => ⟨⟨erased,?_,id⟩,rfl,rfl,not_not.mp partial_,?_⟩⟩
    · intro u is
      exact (attach_fresh (is_attached u is)).1
    · intro u is
      exact ⟨fun wrong => refused ⟨wrong.1,.inr wrong.2⟩,is_attached u is⟩

theorem create_target_rebuilt {image_size : Nat} (rebuilt : Rebuilt w) (fits : VolumeFits w (ubi_volume x) image_size) :
    Rebuilt (recovery_create_ubi_target x faults image_size w).2 ∧
      ((recovery_create_ubi_target x faults image_size w).1 = 0 →
        ∃ u, w.ubi = some u ∧ (ubi_volume x).utf8ByteSize ≤ UBI_VOL_NAME_MAX ∧ u.volumes.length < u.vtbl_slots ∧
          (recovery_create_ubi_target x faults image_size w).2.ubi = some (with_volume u (ubi_volume x) image_size)) := by
  obtain ⟨ret,selected⟩ := @select_same x w rebuilt.gone
  rw [recovery_create_ubi_target,selected]
  dsimp only
  by_cases failed : ret ≠ 0
  · rw [if_pos failed]
    exact ⟨rebuilt,fun good => absurd good (show -ENODEV ≠ 0 by decide)⟩
  rw [if_neg failed]
  obtain ⟨after,created⟩ := @create_volume_rebuilt faults w rebuilt (ubi_volume x) image_size fits
  rw [andThen]
  by_cases uncreated : (create_volume faults (ubi_volume x) image_size w).1 ≠ 0
  · rw [if_pos uncreated]
    exact ⟨after,fun good => absurd good uncreated⟩
  · rw [if_neg uncreated]
    obtain ⟨device,again⟩ := @Rebuilt.try_same x faults _ after
    refine ⟨again,fun _ => ?_⟩
    obtain ⟨u,was,short,slot,is⟩ := created (not_not.mp uncreated)
    exact ⟨u,was,short,slot,device.trans is⟩

theorem ensure_preserved_rebuilt (rebuilt : Rebuilt w)
    (fits : (xg2010g x || w1700k x) = true → VolumeFits w "factory" RECOVERY_FACTORY_SIZE) :
    Rebuilt (recovery_ensure_preserved_ubi_volumes x faults w).2 := by
  obtain ⟨ret,selected⟩ := @select_same x w rebuilt.gone
  rw [recovery_ensure_preserved_ubi_volumes,selected]
  dsimp only
  by_cases failed : ret ≠ 0
  · rw [if_pos failed]
    exact rebuilt
  · rw [if_neg failed]
    by_cases own : (xg2010g x || w1700k x) = true
    · rw [if_pos own]
      exact ensure_rebuilt rebuilt (fun _ => fits own)
    · rw [if_neg own]
      exact rebuilt

theorem ensure_rootfs_rebuilt (rebuilt : Rebuilt w) : Rebuilt (recovery_ensure_rootfs_data x faults w).2 := by
  obtain ⟨ret,selected⟩ := @select_same x w rebuilt.gone
  rw [recovery_ensure_rootfs_data,selected]
  dsimp only
  by_cases failed : ret ≠ 0
  · rw [if_pos failed]
    exact rebuilt
  · rw [if_neg failed]
    exact ensure_rebuilt rebuilt (fun some_ => absurd rfl some_)

theorem rebuild_quiet {image_size : Nat} (fits : RebuildFits x image_size) (cleanup : UbiWorld → Int × UbiWorld)
    (ops : w.ops = []) : Quiet (flash_ubi_image x faults cleanup image_size w).2 := by
  have before : ∀ op ∈ w.ops, op.ret ≠ -ENOSPC := by simp [ops]
  rw [flash_ubi_image,recovery_force_ubi_rebuild]
  dsimp only
  by_cases missing : faults.device.val ≠ 0
  · rw [if_pos missing]
    exact andThen_step before (fun good => absurd good missing)
  rw [if_neg missing,andThen_good rfl,recovery_calc_rebuild_ubi_limit]
  dsimp only
  rw [if_pos rfl]
  by_cases large : image_size > x.flash.size
  · rw [if_pos large]
    exact before
  rw [if_neg large]
  generalize from_ : ({ w with ubi := none, cur_size := 0, limit := x.flash.size, ubi_needs_format := true } : UbiWorld) =
    w₁
  obtain ⟨quiet,prepared⟩ := @prepare_rebuilt x faults w₁ (by rw [← from_]) (by rw [← from_]) (by rw [← from_]; exact ops)
  refine andThen_step quiet ?_
  intro good
  obtain ⟨rebuilt,reformatted,empty,whole,device⟩ := prepared good
  generalize (recovery_prepare_ubi_target x faults w₁).2 = w₂ at rebuilt reformatted empty device
  rw [if_pos reformatted,andThen_good rfl]
  dsimp only
  rw [if_pos empty]
  have room : ∀ u, w₂.ubi = some u → PartitionFits x image_size u ∧ u.volumes = [] := by
    intro u is
    obtain ⟨valid,attached⟩ := device u is
    exact ⟨fits u ⟨by omega,whole,valid,attached⟩,(attach_fresh attached).2.1⟩
  have target_fits : VolumeFits w₂ (ubi_volume x) image_size := by
    intro u is short slot _
    obtain ⟨long | none_ | ⟨own,-⟩,-⟩ := room u is
    · omega
    · omega
    · exact own
  obtain ⟨after,created⟩ := @create_target_rebuilt x faults w₂ image_size rebuilt target_fits
  refine andThen_step after.quiet ?_
  intro good
  obtain ⟨u,was,short,slot,is⟩ := created good
  generalize (recovery_create_ubi_target x faults image_size w₂).2 = w₃ at after is
  have factory_fits : (xg2010g x || w1700k x) = true → VolumeFits w₃ "factory" RECOVERY_FACTORY_SIZE := by
    intro own u' is' _ slot' new
    obtain rfl := Option.some.inj (is.symm.trans is')
    obtain ⟨long | none_ | ⟨-,both⟩,none_⟩ := room u was
    · omega
    · omega
    · have other : ubi_volume x ≠ "factory" := by simpa [with_volume,none_] using new
      have second : 1 < u.vtbl_slots := by simpa [with_volume,none_] using slot'
      have enough := both own other second
      dsimp only [with_volume]
      omega
  have preserved := @ensure_preserved_rebuilt x faults w₃ after factory_fits
  refine andThen_step preserved.quiet ?_
  intro _
  have rootfs := @ensure_rootfs_rebuilt x faults _ preserved
  refine andThen_step rootfs.quiet ?_
  intro _
  exact write_quiet rootfs image_size

def no_faults : UbiFaults where
  device := no_fault
  erase := 0
  attach := false
  open_volume _ := no_fault
  create _ := no_fault
  resize := no_fault
  start := no_fault
  write _ := no_fault
  finish := no_fault
  check := no_fault

def formatted (w : UbiWorld) (u : UbiDevice) : UbiWorld :=
  ⟨some u,some u,0,u.avail_pebs*u.leb_size,false,true,w.ops ++ [.erase]⟩

theorem select_attached {u : UbiDevice} (valid : ¬ (x.active = true ∧ x.mtd_ubi_valid = false)) (attached : w.ubi = some u) :
    recovery_select_ubi x w = (0,w) := by
  rw [recovery_select_ubi,attached]
  dsimp only
  rw [if_neg valid]

theorem prepare_formatted {image_size : Nat} {u : UbiDevice} (reached : Reached x image_size u)
    (format : w.ubi_needs_format = true) (detached : w.ubi = none) :
    recovery_prepare_ubi_target x no_faults w = (0,formatted w u) := by
  have attached : (if no_faults.attach = true then none else (attach_empty x.flash).toOption) = some u := by
    rw [if_neg (by decide),reached.attached]
    rfl
  have valid : ¬ (x.active = true ∧ (Option.isNone (some u) = true ∨ x.mtd_ubi_valid = false)) := by
    rintro ⟨active,missing | wrong⟩
    · cases missing
    · exact reached.valid ⟨active,wrong⟩
  rw [recovery_prepare_ubi_target]
  dsimp only
  rw [if_neg (by simp [format]),if_neg (not_not.mpr reached.whole),if_neg (by decide),attached,recovery_select_ubi,detached]
  dsimp only
  rw [if_neg valid,andThen_good rfl]
  rfl

theorem create_volume_plain {u : UbiDevice} (fresh : Fresh u) (attached : w.ubi = some u) {name : String} {bytes : Nat}
    (short : name.utf8ByteSize ≤ UBI_VOL_NAME_MAX) (slot : u.volumes.length < u.vtbl_slots)
    (new : u.volumes.any (·.name = name) = false) :
    create_volume no_faults name bytes w =
      if pebs u.leb_size bytes > u.avail_pebs then
        (-ENOSPC,{ w with ubi := some u, ops := w.ops ++ [.create name (-ENOSPC)] })
      else (0,{ w with ubi := some (with_volume u name bytes), ops := w.ops ++ [.create name 0] }) := by
  rw [create_volume,attached]
  dsimp only
  rw [if_neg (by omega),create_spec fresh,if_neg (by omega),if_neg (by simp [new])]
  by_cases large : pebs u.leb_size bytes > u.avail_pebs
  · rw [if_pos large,if_pos large]
  · rw [if_neg large,if_neg large]
    rfl

theorem andThen_failed {r : Int × UbiWorld} (failed : r.1 ≠ 0) (next : UbiWorld → Int × UbiWorld) : andThen r next = r := by
  rw [andThen,if_pos failed]

theorem rebuild_lacks {image_size : Nat} {u : UbiDevice} (reached : Reached x image_size u)
    (no_room : ¬ PartitionFits x image_size u) (cleanup : UbiWorld → Int × UbiWorld) :
    LacksSpace (flash_ubi_image x no_faults cleanup image_size w).2.ops := by
  have enospc : -ENOSPC ≠ 0 := by decide
  obtain ⟨fresh,none_,-⟩ := attach_fresh reached.attached
  rw [PartitionFits,not_or,not_or] at no_room
  obtain ⟨short,slots,no_room⟩ := no_room
  rw [flash_ubi_image,recovery_force_ubi_rebuild]
  dsimp only
  rw [if_neg (show ¬ no_faults.device.val ≠ 0 by decide),andThen_good rfl,recovery_calc_rebuild_ubi_limit]
  dsimp only
  rw [if_pos rfl,if_neg (not_lt.mpr reached.size)]
  generalize from_ : ({ w with ubi := none, cur_size := 0, limit := x.flash.size, ubi_needs_format := true } : UbiWorld) = w₁
  rw [@prepare_formatted x w₁ image_size u reached (by rw [← from_]) (by rw [← from_]),andThen_good rfl]
  generalize place : formatted w₁ u = w₂
  have device : w₂.ubi = some u := by rw [← place]; rfl
  have erased : UbiOp.erase ∈ w₂.ops := by rw [← place]; simp [formatted]
  have reformatted : w₂.reformatted = true := by rw [← place]; rfl
  have empty : w₂.cur_size = 0 := by rw [← place]; rfl
  dsimp only
  rw [if_pos reformatted,andThen_good rfl]
  dsimp only
  rw [if_pos empty,recovery_create_ubi_target,select_attached reached.valid device]
  dsimp only
  rw [if_neg (not_not.mpr rfl),create_volume_plain fresh device (not_lt.mp short) (by rw [none_]; exact Nat.pos_of_ne_zero slots)
    (by rw [none_]; rfl)]
  by_cases large : pebs u.leb_size image_size > u.avail_pebs
  · -- The firmware itself is too large.
    rw [if_pos large,andThen_failed enospc,andThen_failed enospc]
    exact ⟨w₂.ops,.create (ubi_volume x) (-ENOSPC),[],rfl,erased,rfl⟩
  -- It leaves too little for the volume of the board.
  rw [if_neg large]
  have both : (xg2010g x || w1700k x) = true ∧ ubi_volume x ≠ "factory" ∧ 1 < u.vtbl_slots ∧
      u.avail_pebs < pebs u.leb_size image_size+pebs u.leb_size RECOVERY_FACTORY_SIZE := by
    by_contra fine
    refine no_room ⟨by omega,fun own other second => ?_⟩
    by_contra much
    exact fine ⟨own,other,second,by omega⟩
  obtain ⟨own,other,second,much⟩ := both
  generalize next : ({ w₂ with
    ubi := some (with_volume u (ubi_volume x) image_size), ops := w₂.ops ++ [.create (ubi_volume x) 0] } : UbiWorld) = w₃
  have device₃ : w₃.ubi = some (with_volume u (ubi_volume x) image_size) := by rw [← next]
  have good : (recovery_try_ubi_target x no_faults w₃).1 = 0 := by
    rw [recovery_try_ubi_target,select_attached reached.valid device₃]
    dsimp only
    rw [if_neg (not_not.mpr rfl),device₃]
    dsimp only
    split <;> rfl
  obtain ⟨cur_size,limit,needs_format,same⟩ := @try_world x no_faults w₃
  rw [device₃,some_or] at same
  have found : andThen (0,w₃) (recovery_try_ubi_target x no_faults) = recovery_try_ubi_target x no_faults w₃ :=
    andThen_good rfl _
  rw [found,andThen_good good,same]
  generalize last : ({ w₃ with
    ubi := some (with_volume u (ubi_volume x) image_size), cur_size := cur_size, limit := limit,
    ubi_needs_format := needs_format } : UbiWorld) = w₄
  have device₄ : w₄.ubi = some (with_volume u (ubi_volume x) image_size) := by rw [← last]
  have ops₄ : w₄.ops = w₂.ops ++ [.create (ubi_volume x) 0] := by rw [← last,← next]
  have fresh₄ := fresh.with_volume (ubi_volume x) (not_lt.mp large)
  have new : (with_volume u (ubi_volume x) image_size).volumes.any (·.name = "factory") = false := by
    simp [with_volume,none_,other]
  have unopened : (w₄.ubi.bind fun u => ubi_open_volume no_faults u "factory") = none := by
    rw [device₄,bind_some,ubi_open_volume,if_neg (by decide)]
    simp [with_volume,none_,other]
  have ensured : recovery_ensure_preserved_ubi_volumes x no_faults w₄ = (-ENOSPC,{ w₄ with
      ubi := some (with_volume u (ubi_volume x) image_size), ops := w₄.ops ++ [.create "factory" (-ENOSPC)] }) := by
    rw [recovery_ensure_preserved_ubi_volumes,select_attached reached.valid device₄]
    dsimp only
    rw [if_neg (not_not.mpr rfl),if_pos own,recovery_ensure_ubi_volume_named,unopened]
    have some_ : ¬ RECOVERY_FACTORY_SIZE = 0 := by decide
    have lacking : pebs (with_volume u (ubi_volume x) image_size).leb_size RECOVERY_FACTORY_SIZE >
        (with_volume u (ubi_volume x) image_size).avail_pebs := by
      dsimp only [with_volume]
      omega
    dsimp only [recovery_create_ubi_volume]
    rw [if_neg some_,create_volume_plain fresh₄ device₄ (by decide) (by simpa [with_volume,none_] using second) new,
      if_pos lacking]
    rfl
  rw [ensured,andThen_failed enospc]
  refine ⟨w₂.ops ++ [.create (ubi_volume x) 0],.create "factory" (-ENOSPC),[],?_,by simp [erased],rfl⟩
  dsimp only
  rw [ops₄]

end

section
variable (x : UbiSetting) (faults : UbiFaults) (cleanup : UbiWorld → Int × UbiWorld) (w : UbiWorld) (setup : Setup UbiWorld)

/-- The board with the limits of uploads as `recovery_calc_target_max` computes them
    in the given world. -/
def ubi_board (board : Board) : Board :=
  { board with
    target_max := recovery_calc_target_max (ubi_setup x faults cleanup w setup) fun _ =>
      recovery_calc_rebuild_ubi_limit x (recovery_try_ubi_target x faults w).2 }

end

theorem try_no_faults {x : UbiSetting} {faults : UbiFaults} {w : UbiWorld}
    (good : (recovery_try_ubi_target x faults w).1 = 0) : (recovery_try_ubi_target x no_faults w).1 = 0 := by
  rw [recovery_try_ubi_target] at good ⊢
  generalize recovery_select_ubi x w = r at good ⊢
  obtain ⟨ret,w'⟩ := r
  dsimp only at good ⊢
  by_cases failed : ret ≠ 0
  · rw [if_pos failed] at good ⊢
    rw [if_neg (show ¬ no_faults.device.val ≠ 0 by decide)]
    by_cases missing : faults.device.val ≠ 0
    · rw [if_pos missing] at good
      exact absurd good (show -ENODEV ≠ 0 by decide)
    · rw [if_neg missing] at good
      by_cases refused : x.active = true ∧ x.mtd_ubi_valid = false
      · rw [if_pos refused] at good
        exact absurd good (show -EINVAL ≠ 0 by decide)
      · rw [if_neg refused]
  · rw [if_neg failed] at good ⊢
    cases device : w'.ubi with
    | none =>
      rw [device] at good
      exact absurd good (show -ENODEV ≠ 0 by decide)
    | some u =>
      dsimp only
      split <;> rfl

theorem accepted_firmware {g : Shared} {board : Board} {uri : List Char} {content_len : Int}
    (firmware : upload_target uri = some .TARGET_FIRMWARE) (accepted : (httpd_post_begin g board uri content_len).1 = ERR_OK) :
    0 < content_len ∧ board.target_max .TARGET_FIRMWARE ≠ 0 := by
  have argument : ERR_ARG ≠ ERR_OK := by decide
  have upload : uri ≠ "/reboot".toList := by
    rintro rfl
    exact absurd firmware (by decide)
  cases under_way : busy g with
  | true =>
    rw [httpd_post_begin_busy under_way] at accepted
    exact absurd accepted argument
  | false =>
    rw [httpd_post_begin_upload under_way board upload,begin_upload,firmware] at accepted
    dsimp only at accepted
    split at accepted
    · exact absurd accepted argument
    · split at accepted
      · exact absurd accepted argument
      · next allowed =>
        have allowed : length_allowed board .TARGET_FIRMWARE content_len = true := by simpa using allowed
        refine ⟨length_allowed_pos allowed,?_⟩
        intro none_
        rw [length_allowed] at allowed
        simp [none_] at allowed

section
variable {x : UbiSetting} {cleanup : UbiWorld → Int × UbiWorld} {w : UbiWorld} {setup : Setup UbiWorld}

theorem flash_firmware (faults : UbiFaults) {image : List UInt8} (some_ : image.length ≠ 0) (s : Session UbiWorld) :
    flash_image (ubi_setup x faults cleanup w setup) .TARGET_FIRMWARE image s =
      if (recovery_try_ubi_target x faults w).1 ≠ 0 then fail (-ENODEV) s
      else
        let r := flash_ubi_image x faults cleanup image.length (recovery_try_ubi_target x faults w).2
        (r.1,{ s with world := r.2 }) := by
  rw [flash_image]
  dsimp only
  rw [if_neg some_,if_neg (by simp [recovery_target_exact_size]),if_neg (by simp)]
  dsimp only [recovery_resolve_target,ubi_setup]
  by_cases failed : (recovery_try_ubi_target x faults w).1 ≠ 0
  · rw [if_pos failed,if_pos failed]
  · rw [if_neg failed,if_neg failed]
    rfl

/-- An upload that was admitted never lacks space once the partition is erased
    exactly if the volumes that the rebuild creates fit into the formatted
    partition. -/
theorem rebuild_space_iff (seen : UbiFaults) {g : Shared} {board : Board} {uri : List Char} {image : List UInt8}
    (ops : w.ops = []) (firmware : upload_target uri = some .TARGET_FIRMWARE)
    (accepted : (httpd_post_begin g (ubi_board x seen cleanup w setup board) uri image.length).1 = ERR_OK) :
    (∀ (faults : UbiFaults) (s : Session UbiWorld), s.world = w →
        ¬ LacksSpace (flash_image (ubi_setup x faults cleanup w setup) .TARGET_FIRMWARE image s).2.world.ops) ↔
      RebuildFits x image.length := by
  obtain ⟨pos,target⟩ := accepted_firmware firmware accepted
  have some_ : image.length ≠ 0 := by omega
  have resolved : (recovery_try_ubi_target x seen w).1 = 0 := by
    by_contra failed
    refine target ?_
    dsimp only [ubi_board,recovery_calc_target_max,recovery_resolve_target,ubi_setup]
    rw [if_pos failed]
  constructor
  · intro quiet u reached
    by_contra no_room
    have run := quiet no_faults ⟨w,[]⟩ rfl
    rw [flash_firmware no_faults some_,if_neg (not_not.mpr (try_no_faults resolved))] at run
    exact run (rebuild_lacks reached no_room cleanup)
  · intro fits faults s same
    rw [flash_firmware faults some_]
    by_cases failed : (recovery_try_ubi_target x faults w).1 ≠ 0
    · rw [if_pos failed]
      refine quiet_not_lacking ?_
      dsimp only [fail,Session.note]
      rw [same,Quiet,ops]
      simp
    · rw [if_neg failed]
      obtain ⟨cur_size,limit,needs_format,after⟩ := @try_world x faults w
      refine quiet_not_lacking (rebuild_quiet fits cleanup ?_)
      rw [after]
      exact ops

end

def xg2010g_flash : UbiFlash := ⟨0x1b800000,0x20000,4096,fun _ => false,true,80,0,by decide⟩

def xg2010g_setting : UbiSetting := ⟨xg2010g_flash,true,true,fun name => name = "naoki,xg2010g",fun _ => none⟩

def blank : UbiWorld := ⟨none,none,0,0,false,false,[]⟩

def no_setup : Setup UbiWorld where
  env_get _ := none
  env_get_hex _ := 0
  get_mtd_device_nm _ := .error ⟨-ENODEV,enodev_neg⟩
  resolve_firmware := .error ⟨-ENODEV,enodev_neg⟩
  flash_ubi _ _ s := (-ENODEV,s)
  memory := true

def no_cleanup (w : UbiWorld) : Int × UbiWorld := (0,w)

def waiting_server : Shared := ⟨0,0,0,.TARGET_FIRMWARE,false,false,false,false,0,0,fun _ => 0⟩

def one_gigabyte : Board := ⟨true,"2.0".toList,fun _ => 0,0,0,0,0x81800000,0x80000000,0x40000000⟩

/-- An image of the smallest size. -/
theorem rebuild_space_small :
    (∀ (faults : UbiFaults) (s : Session UbiWorld), s.world = blank →
        ¬ LacksSpace (flash_image (ubi_setup xg2010g_setting faults no_cleanup blank no_setup) .TARGET_FIRMWARE
          (List.replicate 0x100000 0) s).2.world.ops) ↔
      RebuildFits xg2010g_setting (List.replicate 0x100000 (0 : UInt8)).length :=
  @rebuild_space_iff xg2010g_setting no_cleanup blank no_setup no_faults waiting_server one_gigabyte "/upload/firmware".toList
    (List.replicate 0x100000 0) rfl (by decide) (by rw [List.length_replicate]; decide +kernel)

theorem xg2010g_attached : attach_empty xg2010g_flash = .ok ⟨126976,128,3520,3436,[]⟩ := by
  have bad : xg2010g_flash.bad_peb_count = 0 := by
    simp [UbiFlash.bad_peb_count,xg2010g_flash]
  have good : xg2010g_flash.good_peb_count = 3520 := by
    rw [UbiFlash.good_peb_count,bad]
    rfl
  rw [attach_empty,good,bad]
  rfl

/-- An image of the size of the partition is admitted, and found to be too large after
    the erase. -/
theorem full_upload_lacks :
    (httpd_post_begin waiting_server (ubi_board xg2010g_setting no_faults no_cleanup blank no_setup one_gigabyte)
        "/upload/firmware".toList 0x1b800000).1 = ERR_OK ∧
      LacksSpace (flash_image (ubi_setup xg2010g_setting no_faults no_cleanup blank no_setup) .TARGET_FIRMWARE
        (List.replicate 0x1b800000 0) ⟨blank,[]⟩).2.world.ops := by
  have some_ : (List.replicate 0x1b800000 (0 : UInt8)).length ≠ 0 := by
    rw [List.length_replicate]
    decide
  have reached : Reached xg2010g_setting 0x1b800000 ⟨126976,128,3520,3436,[]⟩ :=
    ⟨by decide,by decide,by decide,xg2010g_attached⟩
  have no_room : ¬ PartitionFits xg2010g_setting 0x1b800000 ⟨126976,128,3520,3436,[]⟩ := by
    rintro (long | none_ | ⟨small,-⟩)
    · exact absurd long (by decide)
    · exact absurd none_ (by decide)
    · exact absurd small (by decide)
  refine ⟨by decide +kernel,?_⟩
  rw [flash_firmware no_faults some_,if_neg (by decide +kernel),List.length_replicate]
  dsimp only
  exact @rebuild_lacks xg2010g_setting (recovery_try_ubi_target xg2010g_setting no_faults blank).2 0x1b800000 _ reached no_room
    no_cleanup

end UBoot.Recovery
