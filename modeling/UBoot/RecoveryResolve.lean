import UBoot.RecoveryFlash

/-!
Where an upload goes, `recovery_resolve_target` of `net/lwip/httpd_recovery.c`,
with all the ways to find the target of firmware, and whether the part of the
device that a target stands for ends within the device.
-/
namespace UBoot.Recovery

section
variable {World : Type}

/-- What the resolution reads: whether the board knows its layout, the
    environment, the devices by name before and after UBI was tried, and what
    `recovery_try_ubi_target` made of it, a device to format and a limit.
    `hextoul` has no value for a text without digits. -/
structure Devices (World : Type) where
  board_active : Bool
  env_get : String → Option String
  hextoul : String → Option Nat
  get_mtd_device_nm : String → Except Errno (Mtd World)
  get_mtd_device_nm_later : String → Except Errno (Mtd World)
  try_ubi : Option (Option (Mtd World) × Nat)

def env_get_hex (d : Devices World) (varname : String) (default_val : Nat) : Nat :=
  ((d.env_get varname).bind d.hextoul).getD default_val

def recovery_raw_env : Target → String
  | .TARGET_FIRMWARE => "recovery_dev"
  | .TARGET_UBOOT => "recovery_dev_uboot"
  | .TARGET_UENV => "recovery_dev_uenv"
  | .TARGET_DSD => "recovery_dev_dsd"

def recovery_raw_offset (d : Devices World) : Target → Nat
  | .TARGET_FIRMWARE => env_get_hex d "recovery_ofs" 0x050000
  | .TARGET_UBOOT => 0
  | .TARGET_UENV => 0
  | .TARGET_DSD => 0

def recovery_default_raw : Target → Option String
  | _ => none

def target_name (d : Devices World) (tgt : Target) : String :=
  if tgt = .TARGET_FIRMWARE ∧ d.board_active = true then "fit"
  else (d.env_get (recovery_target_env tgt)).getD (recovery_default_target tgt)

def target_raw (d : Devices World) (tgt : Target) : Option String :=
  match d.env_get (recovery_raw_env tgt) with
  | none => recovery_default_raw tgt
  | some raw => if raw = "" then recovery_default_raw tgt else some raw

/-- A target on a raw device. The offset is taken off only where it is below
    the size. -/
def raw_target (mtd : Mtd World) (ofs size_cap : Nat) : RecoveryTarget World :=
  let limit := if ofs ≠ 0 ∧ mtd.size > ofs then mtd.size-ofs else mtd.size
  ⟨.RECOVERY_BACKEND_MTD,some mtd,ofs,if size_cap ≠ 0 ∧ limit > size_cap then size_cap else limit⟩

/-- The last two ways, after the raw device and the name were tried. -/
def resolve_ubi_or_raw (d : Devices World) (size_cap : Nat) : Except Errno (RecoveryTarget World) :=
  let tgt := Target.TARGET_FIRMWARE
  match d.try_ubi with
  | some (mtd,limit) => .ok ⟨.RECOVERY_BACKEND_UBI,mtd,0,limit⟩
  | none =>
    if d.board_active then .error ⟨-ENODEV,by decide⟩
    else
      match d.get_mtd_device_nm_later ((target_raw d tgt).getD "nor0") with
      | .error _ => .error ⟨-ENODEV,by decide⟩
      | .ok mtd => .ok (raw_target mtd (recovery_raw_offset d tgt) size_cap)

def resolve_named (d : Devices World) (size_cap : Nat) : Except Errno (RecoveryTarget World) :=
  if d.board_active then resolve_ubi_or_raw d size_cap
  else
    match d.get_mtd_device_nm (target_name d .TARGET_FIRMWARE) with
    | .ok mtd => .ok ⟨.RECOVERY_BACKEND_MTD,some mtd,0,mtd.size⟩
    | .error _ => resolve_ubi_or_raw d size_cap

/-- The part of `recovery_resolve_target` that only firmware comes to. -/
def resolve_firmware (d : Devices World) (size_cap : Nat) : Except Errno (RecoveryTarget World) :=
  let tgt := Target.TARGET_FIRMWARE
  match target_raw d tgt with
  | none => resolve_named d size_cap
  | some raw =>
    if d.board_active then resolve_named d size_cap
    else
      match d.get_mtd_device_nm raw with
      | .ok mtd => .ok (raw_target mtd (recovery_raw_offset d tgt) size_cap)
      | .error _ => resolve_named d size_cap

def resolving (d : Devices World) (setup : Setup World) : Setup World :=
  { setup with
    env_get := d.env_get, env_get_hex := fun varname => env_get_hex d varname 0, get_mtd_device_nm := d.get_mtd_device_nm,
    resolve_firmware := resolve_firmware d (env_get_hex d (recovery_size_env .TARGET_FIRMWARE) 0) }

def ULONG_MAX : Nat := 2^64-1

/-- Zero where there is no target. For a raw device the limit is that of the
    target; `rebuild_limit` stands for the computation on a UBI device. -/
def recovery_calc_target_max (setup : Setup World) (rebuild_limit : RecoveryTarget World → Nat) (tgt : Target) : Nat :=
  match recovery_resolve_target setup tgt with
  | .error _ => 0
  | .ok target =>
    let effective_limit :=
      if tgt = .TARGET_FIRMWARE ∧ target.backend = .RECOVERY_BACKEND_UBI then rebuild_limit target else target.limit
    if effective_limit > ULONG_MAX then ULONG_MAX else effective_limit

/-- Firmware goes to a raw device, at the offset of the environment: the device
    that was asked for, or the last resort. -/
def RawDevice (d : Devices World) (mtd : Mtd World) : Prop :=
  d.board_active = false ∧
    ((∃ raw, target_raw d .TARGET_FIRMWARE = some raw ∧ d.get_mtd_device_nm raw = .ok mtd) ∨
      ((∀ raw found, target_raw d .TARGET_FIRMWARE = some raw → d.get_mtd_device_nm raw ≠ .ok found) ∧
        (∀ found, d.get_mtd_device_nm (target_name d .TARGET_FIRMWARE) ≠ .ok found) ∧ d.try_ubi = none ∧
        d.get_mtd_device_nm_later ((target_raw d .TARGET_FIRMWARE).getD "nor0") = .ok mtd))

def Within (target : RecoveryTarget World) (mtd : Mtd World) : Prop := target.ofs+target.limit ≤ mtd.size

theorem raw_target_within (mtd : Mtd World) (ofs size_cap : Nat) :
    Within (raw_target mtd ofs size_cap) mtd ↔ ofs = 0 ∨ ofs < mtd.size := by
  rw [Within,raw_target]
  dsimp only
  by_cases below : ofs ≠ 0 ∧ mtd.size > ofs
  · rw [if_pos below]
    split <;> omega
  · rw [if_neg below]
    split <;> omega

variable {d : Devices World} {mtd : Mtd World} {size_cap : Nat} {target : RecoveryTarget World}

theorem resolve_ubi_or_raw_cases
    (resolved : resolve_ubi_or_raw d size_cap = .ok target) (backend : target.backend = .RECOVERY_BACKEND_MTD)
    (device : target.mtd = some mtd) :
    d.board_active = false ∧ d.try_ubi = none ∧
      d.get_mtd_device_nm_later ((target_raw d .TARGET_FIRMWARE).getD "nor0") = .ok mtd ∧
      target = raw_target mtd (recovery_raw_offset d .TARGET_FIRMWARE) size_cap := by
  unfold resolve_ubi_or_raw at resolved
  cases ubi : d.try_ubi with
  | some found =>
    rw [ubi] at resolved
    obtain rfl := Except.ok.inj resolved
    cases backend
  | none =>
    rw [ubi] at resolved
    dsimp only at resolved
    cases active : d.board_active with
    | true =>
      rw [active,if_pos rfl] at resolved
      cases resolved
    | false =>
      rw [active,if_neg (by decide)] at resolved
      cases later : d.get_mtd_device_nm_later ((target_raw d .TARGET_FIRMWARE).getD "nor0") with
      | error err =>
        rw [later] at resolved
        cases resolved
      | ok found =>
        rw [later] at resolved
        obtain rfl := Except.ok.inj resolved
        obtain rfl : found = mtd := Option.some.inj device
        exact ⟨rfl,rfl,rfl,rfl⟩

theorem resolve_named_cases
    (resolved : resolve_named d size_cap = .ok target) (backend : target.backend = .RECOVERY_BACKEND_MTD)
    (device : target.mtd = some mtd) :
    d.board_active = false ∧
      ((d.get_mtd_device_nm (target_name d .TARGET_FIRMWARE) = .ok mtd ∧ target.ofs = 0 ∧ target.limit = mtd.size) ∨
        ((∀ found, d.get_mtd_device_nm (target_name d .TARGET_FIRMWARE) ≠ .ok found) ∧ d.try_ubi = none ∧
          d.get_mtd_device_nm_later ((target_raw d .TARGET_FIRMWARE).getD "nor0") = .ok mtd ∧
          target = raw_target mtd (recovery_raw_offset d .TARGET_FIRMWARE) size_cap)) := by
  unfold resolve_named at resolved
  cases active : d.board_active with
  | true =>
    rw [active,if_pos rfl] at resolved
    obtain ⟨inactive,-⟩ := resolve_ubi_or_raw_cases resolved backend device
    exact absurd (active.symm.trans inactive) (by decide)
  | false =>
    rw [active,if_neg (by decide)] at resolved
    refine ⟨rfl,?_⟩
    cases named : d.get_mtd_device_nm (target_name d .TARGET_FIRMWARE) with
    | ok found =>
      rw [named] at resolved
      obtain rfl := Except.ok.inj resolved
      obtain rfl : found = mtd := Option.some.inj device
      exact .inl ⟨rfl,rfl,rfl⟩
    | error err =>
      rw [named] at resolved
      obtain ⟨-,rest⟩ := resolve_ubi_or_raw_cases resolved backend device
      exact .inr ⟨nofun,rest⟩

theorem resolve_firmware_within
    (resolved : resolve_firmware d size_cap = .ok target) (backend : target.backend = .RECOVERY_BACKEND_MTD)
    (device : target.mtd = some mtd) :
    Within target mtd ↔ (RawDevice d mtd →
      recovery_raw_offset d .TARGET_FIRMWARE = 0 ∨ recovery_raw_offset d .TARGET_FIRMWARE < mtd.size) := by
  -- No such device, so that the other ways were taken.
  have other : (∀ raw found, target_raw d .TARGET_FIRMWARE = some raw → d.board_active = false →
      d.get_mtd_device_nm raw ≠ .ok found) → resolve_named d size_cap = .ok target →
      (Within target mtd ↔ (RawDevice d mtd →
        recovery_raw_offset d .TARGET_FIRMWARE = 0 ∨ recovery_raw_offset d .TARGET_FIRMWARE < mtd.size)) := by
    intro missing named
    obtain ⟨inactive,⟨found,ofs,limit⟩ | ⟨unnamed,ubi,later,rfl⟩⟩ := resolve_named_cases named backend device
    · have whole : Within target mtd := by
        rw [Within,ofs,limit]
        omega
      refine ⟨?_,fun _ => whole⟩
      rintro - ⟨-,⟨raw,wanted,held⟩ | ⟨-,unnamed,-⟩⟩
      · exact absurd held (missing raw mtd wanted inactive)
      · exact absurd found (unnamed mtd)
    · rw [raw_target_within]
      exact ⟨fun low _ => low,fun low => low ⟨inactive,.inr ⟨fun raw found wanted => missing raw found wanted inactive,
        unnamed,ubi,later⟩⟩⟩
  unfold resolve_firmware at resolved
  dsimp only at resolved
  cases wanted : target_raw d .TARGET_FIRMWARE with
  | none =>
    rw [wanted] at resolved
    exact other (fun raw found given => absurd (wanted.symm.trans given) (by simp)) resolved
  | some raw =>
    rw [wanted] at resolved
    dsimp only at resolved
    cases active : d.board_active with
    | true =>
      rw [active,if_pos rfl] at resolved
      exact other (fun raw found _ inactive => absurd (active.symm.trans inactive) (by decide)) resolved
    | false =>
      rw [active,if_neg (by decide)] at resolved
      cases found : d.get_mtd_device_nm raw with
      | ok mtd' =>
        -- A raw device that was found under its name.
        rw [found] at resolved
        obtain rfl := Except.ok.inj resolved
        obtain rfl : mtd' = mtd := Option.some.inj device
        rw [raw_target_within]
        exact ⟨fun low _ => low,fun low => low ⟨active,.inl ⟨raw,wanted,found⟩⟩⟩
      | error err =>
        rw [found] at resolved
        refine other ?_ resolved
        rintro raw' found' given - held
        obtain rfl := Option.some.inj (wanted.symm.trans given)
        exact absurd (found.symm.trans held) (by simp)

theorem target_max_le {setup : Setup World} {rebuild_limit : RecoveryTarget World → Nat} {tgt : Target}
    {target : RecoveryTarget World} (resolved : recovery_resolve_target setup tgt = .ok target)
    (backend : target.backend = .RECOVERY_BACKEND_MTD) :
    recovery_calc_target_max setup rebuild_limit tgt ≤ target.limit := by
  unfold recovery_calc_target_max
  rw [resolved]
  dsimp only
  have kept : (if tgt = .TARGET_FIRMWARE ∧ target.backend = .RECOVERY_BACKEND_UBI then rebuild_limit target
      else target.limit) = target.limit := if_neg (by rw [backend]; simp)
  rw [kept]
  split <;> omega

/-- A raw target, for which the subtraction is left out when the offset is not
    below the size of the device. -/
theorem target_within_iff (d : Devices World) (setup : Setup World) (tgt : Target) {target : RecoveryTarget World}
    {mtd : Mtd World} (resolved : recovery_resolve_target (resolving d setup) tgt = .ok target)
    (backend : target.backend = .RECOVERY_BACKEND_MTD) (device : target.mtd = some mtd) :
    (Within target mtd ∧ ∀ rebuild_limit n, n ≤ recovery_calc_target_max (resolving d setup) rebuild_limit tgt →
        target.ofs+n ≤ mtd.size) ↔
      (tgt = .TARGET_FIRMWARE → RawDevice d mtd → recovery_raw_offset d tgt = 0 ∨ recovery_raw_offset d tgt < mtd.size) := by
  have accepted : Within target mtd → ∀ rebuild_limit n,
      n ≤ recovery_calc_target_max (resolving d setup) rebuild_limit tgt → target.ofs+n ≤ mtd.size := by
    intro inside rebuild_limit n below
    have most := @target_max_le _ _ rebuild_limit _ _ resolved backend
    rw [Within] at inside
    omega
  rw [and_iff_left_of_imp accepted]
  -- A partition is taken from its start.
  have partition_ : tgt ≠ .TARGET_FIRMWARE → target.ofs = 0 → target.limit ≤ mtd.size →
      (Within target mtd ↔ (tgt = .TARGET_FIRMWARE → RawDevice d mtd →
        recovery_raw_offset d tgt = 0 ∨ recovery_raw_offset d tgt < mtd.size)) := by
    intro other start low
    refine ⟨fun _ firmware => absurd firmware other,fun _ => ?_⟩
    rw [Within,start]
    omega
  have raw_part : ∀ part, resolve_raw_part (resolving d setup) part = .ok target →
      target.ofs = 0 ∧ target.limit ≤ mtd.size := by
    intro part found
    unfold resolve_raw_part at found
    split at found
    · cases found
    · split at found
      · cases found
      · obtain rfl := Except.ok.inj found
        obtain rfl := Option.some.inj device
        exact ⟨rfl,Nat.le_refl _⟩
  cases tgt with
  | TARGET_FIRMWARE =>
    rw [resolve_firmware_within resolved backend device]
    exact ⟨fun low _ => low,fun low => low rfl⟩
  | TARGET_UBOOT =>
    have found : resolve_bootloader (resolving d setup) = .ok target := resolved
    unfold resolve_bootloader at found
    dsimp only at found
    split at found
    · cases found
    · split at found
      · cases found
      · obtain rfl := Except.ok.inj found
        obtain rfl := Option.some.inj device
        refine partition_ (by decide) rfl ?_
        dsimp only
        split <;> omega
  | TARGET_UENV =>
    obtain ⟨start,low⟩ := raw_part _ resolved
    exact partition_ (by decide) start low
  | TARGET_DSD =>
    obtain ⟨start,low⟩ := raw_part _ resolved
    exact partition_ (by decide) start low

end

def erased_mtd (size erasesize : Nat) : Mtd Unit where
  size := size
  erasesize := erasesize
  content _ _ := 0xff
  block_isbad w _ := (0,w)
  block_markbad w _ := (0,w)
  unlock w _ _ := (0,w)
  erase w _ _ := (0,w)
  write w _ bytes := (0,bytes.length,w)
  read w addr len := (0,len,Memory.load (fun _ => 0xff) addr len,w)
  isbad_keeps _ _ := rfl
  read_keeps _ _ _ := rfl
  write_apart _ _ _ _ _ := rfl
  read_stored _ _ _ _ _ := rfl

/-- An environment that sends firmware to a flash chip of this size. -/
def chip (size : Nat) : Devices Unit where
  board_active := false
  env_get varname := if varname = "recovery_dev" then some "nor0" else none
  hextoul _ := none
  get_mtd_device_nm name := if name = "nor0" then .ok (erased_mtd size 0x10000) else .error ⟨-ENODEV,by decide⟩
  get_mtd_device_nm_later _ := .error ⟨-ENODEV,by decide⟩
  try_ubi := none

def any_setup : Setup Unit where
  env_get _ := none
  env_get_hex _ := 0
  get_mtd_device_nm _ := .error ⟨-ENODEV,by decide⟩
  resolve_firmware := .error ⟨-ENODEV,by decide⟩
  flash_ubi _ _ s := (-ENODEV,s)
  memory := true

theorem chip_resolved (size : Nat) :
    recovery_resolve_target (resolving (chip size) any_setup) .TARGET_FIRMWARE =
      .ok (raw_target (erased_mtd size 0x10000) 0x50000 0) := rfl

theorem target_within_iff_chip :
    Within (raw_target (erased_mtd 0x1000000 0x10000) 0x50000 0) (erased_mtd 0x1000000 0x10000) :=
  ((target_within_iff (chip 0x1000000) any_setup .TARGET_FIRMWARE (chip_resolved 0x1000000) rfl rfl).mpr
    (fun _ _ => .inr (by decide))).1

/-- With the default offset beyond the end of the chip, the whole size of the
    chip is still the limit. -/
theorem target_beyond_chip :
    ¬ ∀ (d : Devices Unit) (setup : Setup Unit) (tgt : Target) (target : RecoveryTarget Unit) (mtd : Mtd Unit),
      recovery_resolve_target (resolving d setup) tgt = .ok target → target.backend = .RECOVERY_BACKEND_MTD →
      target.mtd = some mtd → target.ofs+target.limit ≤ mtd.size := by
  intro within
  have inside := within (chip 0x40000) any_setup .TARGET_FIRMWARE _ _ (chip_resolved 0x40000) rfl rfl
  exact absurd inside (by decide)

end UBoot.Recovery
