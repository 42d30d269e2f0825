import UBoot.AndroidAb

/-!
Runs of `ab_select_slot`, `boot/android_ab.c`, that count attempts. A call that works
from a valid control block leaves on the device what it was storing, whether it had
to write or not, and so the next call works from that. Each call counts one attempt
of the slot that it returns, as long as that slot has not booted.
-/
namespace UBoot.AndroidAbRuns
open UBoot.PowerCuts UBoot.AndroidAb List Function

section
variable (crc32 : ControlBody → UInt32)

/-- The beginning of `ab_select_slot` where there is no backup. -/
def work_alone (abc : BootloaderControl) : BootloaderControl × Bool :=
  if abc.crc32_le ≠ ab_control_compute_crc crc32 abc then (ab_control_default crc32 abc,true) else (abc,false)

/-- `ab_select_slot` with `CONFIG_ANDROID_AB_BACKUP_OFFSET` zero. -/
def ab_select_slot_unbacked (device : Device) (part_info : DiskPartition) (dec_tries : Bool) : Selection :=
  match ab_control_create_from_disk device part_info 0 with
  | .error ret => ⟨ret,[]⟩
  | .ok abc =>
    let (control,store_needed) := work_alone crc32 abc.control
    if control.magic ≠ BOOT_CTRL_MAGIC then ⟨-ENODATA,[]⟩
    else if BOOT_CTRL_VERSION < control.version then ⟨-ENODATA,[]⟩
    else
      let (slot,body,store_needed) := choose_slot control.toControlBody store_needed dec_tries
      let control : BootloaderControl := ⟨body,if store_needed then crc32 body else control.crc32_le⟩
      let abc : Block := ⟨control,abc.rest⟩
      let ret : ℤ :=
        match slot with
        | none => -EINVAL
        | some slot => slot.val
      if store_needed then
        match ab_control_store part_info abc 0 with
        | .error ret => ⟨ret,[]⟩
        | .ok w => ⟨ret,[w]⟩
      else ⟨ret,[]⟩

/-- `ab_select_slot` for any `CONFIG_ANDROID_AB_BACKUP_OFFSET`. -/
def select_slot (backup_offset : ℕ) (device : Device) (part_info : DiskPartition) (dec_tries : Bool) : Selection :=
  if backup_offset = 0 then ab_select_slot_unbacked crc32 device part_info dec_tries
  else ab_select_slot crc32 backup_offset device part_info dec_tries
end

/-- One call: the device that it found, what it returned, and the device that it left. -/
structure Attempt where
  before : Device
  ret : ℤ
  after : Device

/-- The calls of a run, one after another and with nothing in between. -/
def calls (select : Device → Selection) : ℕ → Device → List Attempt
  | 0, _ => []
  | n+1, device =>
    let selection := select device
    let after := stored device selection.writes
    ⟨device,selection.ret,after⟩::calls select n after

/-! ## The slot to boot -/

/-- The slot is not corrupted, and has tries left or has booted. -/
def Bootable (info : SlotMetadata) : Prop :=
  info.verity_corrupted = 0 ∧ (info.tries_remaining ≠ 0 ∨ info.successful_boot ≠ 0)

/-- The first slot is better, by the priority, then the successful boot, then the tries. -/
def Beats (a b : SlotMetadata) : Prop :=
  b.priority < a.priority ∨ b.priority = a.priority ∧
    (b.successful_boot < a.successful_boot ∨ b.successful_boot = a.successful_boot ∧
      b.tries_remaining < a.tries_remaining)

/-- What a call may return: a bootable slot that no other one beats, or an error if there
    is none. -/
def Chosen (abc : ControlBody) (ret : ℤ) : Prop :=
  (∃ slot : Fin 4, ret = slot.val ∧ slot.val < abc.nb_slot.toNat ∧ Bootable (abc.slot_info slot) ∧
    ∀ other : Fin 4, other.val < abc.nb_slot.toNat → Bootable (abc.slot_info other) →
      ¬ Beats (abc.slot_info other) (abc.slot_info slot)) ∨
  (ret = -EINVAL ∧ ∀ slot : Fin 4, slot.val < abc.nb_slot.toNat → ¬ Bootable (abc.slot_info slot))

def rank (info : SlotMetadata) : ℕ :=
  16*info.priority.toNat+8*info.successful_boot.toNat+info.tries_remaining.toNat

theorem beats_iff (a b : SlotMetadata) : Beats a b ↔ rank b < rank a := by
  have successes : a.successful_boot.toNat < 2 ∧ b.successful_boot.toNat < 2 := ⟨BitVec.isLt _,BitVec.isLt _⟩
  have tries : a.tries_remaining.toNat < 8 ∧ b.tries_remaining.toNat < 8 := ⟨BitVec.isLt _,BitVec.isLt _⟩
  simp only [Beats,rank,BitVec.lt_def,← BitVec.toNat_inj]
  omega

theorem compare_iff (a b : SlotMetadata) : ab_compare_slots a b < 0 ↔ Beats a b := by
  simp only [ab_compare_slots,Beats,ne_eq,BitVec.lt_def,← BitVec.toNat_inj]
  split_ifs <;> omega

theorem unbootable_iff (info : SlotMetadata) :
    (info.verity_corrupted ≠ 0 ∨ (info.tries_remaining = 0 ∧ info.successful_boot = 0)) ↔ ¬ Bootable info := by
  rw [Bootable]
  tauto

/-- The loop keeps a bootable slot that none of those seen beats. -/
theorem select_loop_spec (slot_info : Fin 4 → SlotMetadata) (l : List (Fin 4)) (best : Option (Fin 4)) :
    (select_loop slot_info l best = none → best = none ∧ ∀ i ∈ l, ¬ Bootable (slot_info i)) ∧
    (∀ slot, select_loop slot_info l best = some slot →
      (best = some slot ∨ slot ∈ l ∧ Bootable (slot_info slot)) ∧
      (∀ i ∈ l, Bootable (slot_info i) → ¬ Beats (slot_info i) (slot_info slot)) ∧
      ∀ b ∈ best, ¬ Beats (slot_info b) (slot_info slot)) := by
  induction l generalizing best with
  | nil =>
    refine ⟨fun nothing => ⟨nothing,fun i member => absurd member not_mem_nil⟩,?_⟩
    rintro slot chosen
    refine ⟨Or.inl chosen,fun i member => absurd member not_mem_nil,?_⟩
    intro b same
    cases chosen
    cases same
    rw [beats_iff]
    exact lt_irrefl _
  | cons i rest ih =>
    rw [select_loop.eq_def]
    dsimp only
    by_cases bootable : Bootable (slot_info i)
    · rw [if_neg ((unbootable_iff _).not.mpr (not_not.mpr bootable))]
      -- the slot becomes the best one, or the best one stays
      have taken : (∀ b ∈ best, Beats (slot_info i) (slot_info b)) →
          (select_loop slot_info rest (some i) = none → best = none ∧ ∀ j ∈ i::rest, ¬ Bootable (slot_info j)) ∧
          (∀ slot, select_loop slot_info rest (some i) = some slot →
            (best = some slot ∨ slot ∈ i::rest ∧ Bootable (slot_info slot)) ∧
            (∀ j ∈ i::rest, Bootable (slot_info j) → ¬ Beats (slot_info j) (slot_info slot)) ∧
            ∀ b ∈ best, ¬ Beats (slot_info b) (slot_info slot)) := by
        intro better
        obtain ⟨never,found⟩ := ih (some i)
        refine ⟨fun nothing => absurd (never nothing).1 (by simp),?_⟩
        intro slot chosen
        obtain ⟨from_,seen,start⟩ := found slot chosen
        refine ⟨Or.inr ?_,?_,?_⟩
        · rcases from_ with same | ⟨member,ok⟩
          · cases same
            exact ⟨mem_cons_self,bootable⟩
          · exact ⟨mem_cons_of_mem _ member,ok⟩
        · intro j member ok
          rcases mem_cons.mp member with rfl | later
          · exact start j rfl
          · exact seen j later ok
        · intro b same worse
          have first := start i rfl
          have second := better b same
          rw [beats_iff] at worse first second
          omega
      cases best with
      | none => exact taken (by simp)
      | some best =>
        dsimp only
        by_cases better : ab_compare_slots (slot_info i) (slot_info best) < 0
        · rw [if_pos better]
          refine taken ?_
          rintro b ⟨⟩
          exact (compare_iff _ _).mp better
        rw [if_neg better]
        obtain ⟨never,found⟩ := ih (some best)
        refine ⟨fun nothing => absurd (never nothing).1 (by simp),?_⟩
        intro slot chosen
        obtain ⟨from_,seen,start⟩ := found slot chosen
        refine ⟨from_.imp_right fun later => ⟨mem_cons_of_mem _ later.1,later.2⟩,?_,start⟩
        intro j member ok
        rcases mem_cons.mp member with rfl | later
        · intro worse
          have first := start best rfl
          rw [compare_iff,beats_iff] at better
          rw [beats_iff] at worse first
          omega
        · exact seen j later ok
    · rw [if_pos ((unbootable_iff _).mpr bootable)]
      obtain ⟨never,found⟩ := ih best
      constructor
      · intro nothing
        obtain ⟨none_,others⟩ := never nothing
        exact ⟨none_,forall_mem_cons.mpr ⟨bootable,others⟩⟩
      · intro slot chosen
        obtain ⟨from_,seen,start⟩ := found slot chosen
        refine ⟨from_.imp_right fun later => ⟨mem_cons_of_mem _ later.1,later.2⟩,?_,start⟩
        intro j member ok
        rcases mem_cons.mp member with rfl | later
        · exact absurd ok bootable
        · exact seen j later ok

theorem mem_slots (abc : ControlBody) (i : Fin 4) :
    i ∈ (List.finRange 4).take (limited abc).nb_slot.toNat ↔ i.val < abc.nb_slot.toNat := by
  have small := i.isLt
  have count : (limited abc).nb_slot.toNat = min abc.nb_slot.toNat 4 := by
    rw [limited]
    split
    · rw [show (4 : BitVec 3).toNat = 4 from rfl]
      omega
    · omega
  rw [count,mem_take_iff_getElem]
  constructor
  · rintro ⟨j,inside,rfl⟩
    rw [getElem_finRange]
    simp only [Fin.val_cast]
    omega
  · intro counted
    exact ⟨i.val,by rw [length_finRange]; omega,by rw [getElem_finRange]; rfl⟩

def answer : Option (Fin 4) → ℤ
  | none => -EINVAL
  | some slot => slot.val

theorem selected_chosen (abc : ControlBody) : Chosen abc (answer (selected (limited abc))) := by
  obtain ⟨never,found⟩ := select_loop_spec abc.slot_info ((List.finRange 4).take (limited abc).nb_slot.toNat) none
  have same : selected (limited abc) = select_loop abc.slot_info ((List.finRange 4).take (limited abc).nb_slot.toNat) none := by
    rw [selected,(limited_fields abc).1]
  rw [same]
  cases chosen : select_loop abc.slot_info ((List.finRange 4).take (limited abc).nb_slot.toNat) none with
  | none =>
    refine Or.inr ⟨rfl,fun slot counted => ?_⟩
    exact (never chosen).2 slot ((mem_slots abc slot).mpr counted)
  | some slot =>
    obtain ⟨start | ⟨member,bootable⟩,unbeaten,_⟩ := found slot chosen
    · cases start
    · refine Or.inl ⟨slot,rfl,(mem_slots abc slot).mp member,bootable,fun other counted ok => ?_⟩
      exact unbeaten other ((mem_slots abc other).mpr counted) ok

/-! ## One call -/

structure Sound (crc32 : ControlBody → UInt32) (abc : BootloaderControl) : Prop where
  valid : Valid crc32 abc
  magic : abc.magic = BOOT_CTRL_MAGIC
  version : abc.version ≤ BOOT_CTRL_VERSION

def Readable (device : Device) (part_info : DiskPartition) (backup_offset : ℕ) : Prop :=
  (∃ abc, ab_control_create_from_disk device part_info 0 = .ok abc) ∧
    ∃ abc, ab_control_create_from_disk device part_info backup_offset = .ok abc

theorem create_ok {device : Device} {part_info : DiskPartition} {offset : ℕ} {abc : Block}
    (read : ab_control_create_from_disk device part_info offset = .ok abc) :
    part_info.blksz ∣ offset+slot_suffix_offset ∧ (offset+slot_suffix_offset)/part_info.blksz < part_info.size := by
  rw [ab_control_create_from_disk] at read
  dsimp only at read
  split at read
  · cases read
  · next aligned =>
    rw [control_blocks] at read
    split at read
    · cases read
    · next inside => exact ⟨Nat.dvd_of_mod_eq_zero (not_not.mp aligned),by omega⟩

theorem readable_placed {device : Device} {part_info : DiskPartition} {backup_offset : ℕ}
    (readable : Readable device part_info backup_offset) (backed_up : backup_offset ≠ 0) : Placed part_info backup_offset := by
  obtain ⟨⟨_,primary⟩,_,backup⟩ := readable
  obtain ⟨primary_aligned,_⟩ := create_ok primary
  obtain ⟨backup_aligned,inside⟩ := create_ok backup
  rw [zero_add] at primary_aligned
  exact ⟨backed_up,primary_aligned,(Nat.dvd_add_left primary_aligned).mp backup_aligned,inside⟩

theorem readable_after {device after : Device} {part_info : DiskPartition} {backup_offset : ℕ}
    (readable : Readable device part_info backup_offset) : Readable after part_info backup_offset := by
  obtain ⟨⟨_,primary⟩,_,backup⟩ := readable
  exact ⟨⟨_,create_at (create_ok primary).1 (create_ok primary).2⟩,_,create_at (create_ok backup).1 (create_ok backup).2⟩

def Counted (before after : ControlBody) (ret : ℤ) : Prop :=
  ∀ slot : Fin 4, (after.slot_info slot).successful_boot = (before.slot_info slot).successful_boot ∧
    (after.slot_info slot).tries_remaining.toNat +
        (if ret = slot.val ∧ (before.slot_info slot).successful_boot = 0 then 1 else 0) =
      (before.slot_info slot).tries_remaining.toNat

theorem one_try_less (tries : BitVec 3) (some_try : tries ≠ 0) : (tries-1).toNat+1 = tries.toNat := by
  revert tries
  decide

theorem selected_bootable {abc : ControlBody} {slot : Fin 4} (chosen : selected (limited abc) = some slot) :
    Bootable (abc.slot_info slot) := by
  have choice := selected_chosen abc
  rw [chosen] at choice
  rcases choice with ⟨other,same,_,bootable,_⟩ | ⟨error,_⟩
  · have equal : slot = other := Fin.ext (by rw [answer] at same; omega)
    rw [equal]
    exact bootable
  · rw [answer,EINVAL] at error
    omega

theorem limited_header (abc : ControlBody) : (limited abc).magic = abc.magic ∧ (limited abc).version = abc.version := by
  rw [limited]
  split
  · exact ⟨rfl,rfl⟩
  · exact ⟨rfl,rfl⟩

theorem attempt_counted {abc after : ControlBody} {slot : Fin 4} (bootable : Bootable (abc.slot_info slot))
    (fresh : (abc.slot_info slot).successful_boot = 0)
    (info : after.slot_info = Function.update abc.slot_info slot
      { abc.slot_info slot with tries_remaining := (abc.slot_info slot).tries_remaining-1 }) :
    Counted abc after slot.val := by
  have some_try : (abc.slot_info slot).tries_remaining ≠ 0 := bootable.2.resolve_right (not_not.mpr fresh)
  intro other
  rw [info]
  by_cases same : other = slot
  · rw [same,update_self]
    refine ⟨rfl,?_⟩
    rw [if_pos ⟨rfl,fresh⟩]
    exact one_try_less _ some_try
  · rw [update_of_ne same]
    refine ⟨rfl,?_⟩
    rw [if_neg]
    · rfl
    · rintro ⟨equal,_⟩
      exact same (Fin.ext (by omega))

theorem choose_slot_counts (abc : ControlBody) :
    (choose_slot abc false true).1 = selected (limited abc) ∧
    (choose_slot abc false true).2.1.magic = abc.magic ∧ (choose_slot abc false true).2.1.version = abc.version ∧
    Counted abc (choose_slot abc false true).2.1 (answer (selected (limited abc))) := by
  obtain ⟨same_info,_⟩ := limited_fields abc
  obtain ⟨magic,version⟩ := limited_header abc
  rw [choose_slot,limited_eq]
  dsimp only
  cases chosen : selected (limited abc) with
  | none =>
    refine ⟨rfl,magic,version,fun slot => ?_⟩
    dsimp only
    rw [same_info,if_neg]
    · exact ⟨rfl,rfl⟩
    · rintro ⟨error,_⟩
      rw [answer,EINVAL] at error
      omega
  | some slot =>
    dsimp only
    rw [same_info]
    by_cases fresh : (abc.slot_info slot).successful_boot = 0
    · have attempt : (abc.slot_info slot).successful_boot = 0 ∧ true = true := ⟨fresh,rfl⟩
      rw [if_pos attempt]
      dsimp only
      split
      · exact ⟨rfl,magic,version,attempt_counted (selected_bootable chosen) fresh rfl⟩
      · exact ⟨rfl,magic,version,attempt_counted (selected_bootable chosen) fresh rfl⟩
    have booted : ¬ ((abc.slot_info slot).successful_boot = 0 ∧ true = true) := fun attempt => fresh attempt.1
    rw [if_neg booted]
    have kept : Counted abc (limited abc) (answer (some slot)) := by
      intro other
      rw [same_info,if_neg]
      · exact ⟨rfl,rfl⟩
      · rintro ⟨same,none_yet⟩
        have equal : slot = other := Fin.ext (by rw [answer] at same; omega)
        exact fresh (equal ▸ none_yet)
    dsimp only
    split
    · exact ⟨rfl,magic,version,kept⟩
    · exact ⟨rfl,magic,version,kept⟩

section
variable {crc32 : ControlBody → UInt32} {backup_offset : ℕ} {device : Device} {part_info : DiskPartition}

theorem left_storing {abc : BootloaderControl} (valid : Valid crc32 abc) :
    (⟨(choose_slot abc.toControlBody false true).2.1,
      if (choose_slot abc.toControlBody false true).2.2 then crc32 (choose_slot abc.toControlBody false true).2.1
      else abc.crc32_le⟩ : BootloaderControl) = storing crc32 abc true := by
  rw [storing]
  cases needed : (choose_slot abc.toControlBody false true).2.2 with
  | true => rfl
  | false =>
    have kept := (choose_slot_stores abc.toControlBody true).2 needed
    have checksum : abc.crc32_le = crc32 abc.toControlBody := valid
    rw [kept,checksum]
    rfl

def Steps (crc32 : ControlBody → UInt32) (device : Device) (part_info : DiskPartition) (selection : Selection) : Prop :=
  selection.ret = answer (selected (limited (device (primary_at part_info)).control.toControlBody)) ∧
    (stored device selection.writes (primary_at part_info)).control =
      storing crc32 (device (primary_at part_info)).control true

theorem work_alone_valid {abc : BootloaderControl} (valid : Valid crc32 abc) : work_alone crc32 abc = (abc,false) :=
  if_neg (not_not.mpr valid)

theorem unbacked_steps (readable : Readable device part_info 0)
    (sound : Sound crc32 (device (primary_at part_info)).control) :
    Steps crc32 device part_info (ab_select_slot_unbacked crc32 device part_info true) := by
  obtain ⟨⟨_,there⟩,_⟩ := readable
  have read : ab_control_create_from_disk device part_info 0 = .ok (device (primary_at part_info)) := by
    rw [primary_at,← zero_add slot_suffix_offset]
    exact create_at (create_ok there).1 (create_ok there).2
  have left := left_storing sound.valid
  have chosen := (choose_slot_counts (device (primary_at part_info)).control.toControlBody).1
  have kept := (choose_slot_stores (device (primary_at part_info)).control.toControlBody true).2
  rw [Steps,ab_select_slot_unbacked,read]
  dsimp only
  rw [work_alone_valid sound.valid]
  dsimp only
  rw [if_neg (not_not.mpr sound.magic),if_neg (UInt8.not_lt.mpr sound.version),left,chosen]
  generalize selected (limited (device (primary_at part_info)).control.toControlBody) = slot
  cases needed : (choose_slot (device (primary_at part_info)).control.toControlBody false true).2.2 with
  | true =>
    rw [if_pos rfl,primary_store]
    refine ⟨?_,?_⟩
    · cases slot <;> rfl
    · exact congrArg Block.control (update_self (primary_at part_info) _ device)
  | false =>
    rw [needed,kept needed] at left
    rw [if_neg Bool.false_ne_true]
    refine ⟨?_,left⟩
    cases slot <;> rfl

theorem backed_steps (placed : Placed part_info backup_offset)
    (sound : Sound crc32 (device (primary_at part_info)).control) :
    Steps crc32 device part_info (ab_select_slot crc32 backup_offset device part_info true) := by
  have left := left_storing sound.valid
  have chosen := (choose_slot_counts (device (primary_at part_info)).control.toControlBody).1
  have kept := (choose_slot_stores (device (primary_at part_info)).control.toControlBody true).2
  have apart := placed.apart
  rw [Steps,ab_select_slot,placed.primary_read,placed.backup_read]
  dsimp only
  rw [work_from_valid sound.valid]
  dsimp only
  rw [if_neg (not_not.mpr sound.magic),if_neg (UInt8.not_lt.mpr sound.version),left,chosen]
  generalize selected (limited (device (primary_at part_info)).control.toControlBody) = slot
  cases needed : (choose_slot (device (primary_at part_info)).control.toControlBody false true).2.2 with
  | true =>
    rw [if_pos rfl,primary_store,placed.backup_store]
    dsimp only
    split
    · refine ⟨?_,?_⟩
      · cases slot <;> rfl
      · rw [singleton_append,stored,foldl_cons,foldl_cons,foldl_nil,update_of_ne apart,
          update_self]
    · refine ⟨?_,?_⟩
      · cases slot <;> rfl
      · exact congrArg Block.control (update_self (primary_at part_info) _ device)
  | false =>
    rw [needed,kept needed] at left
    rw [if_neg Bool.false_ne_true,placed.backup_store]
    dsimp only
    split
    · refine ⟨?_,?_⟩
      · cases slot <;> rfl
      · rw [nil_append,stored,foldl_cons,foldl_nil,update_of_ne apart]
        exact left
    · refine ⟨?_,left⟩
      cases slot <;> rfl

theorem select_slot_steps (readable : Readable device part_info backup_offset)
    (sound : Sound crc32 (device (primary_at part_info)).control) :
    Steps crc32 device part_info (select_slot crc32 backup_offset device part_info true) := by
  rw [select_slot]
  by_cases alone : backup_offset = 0
  · rw [if_pos alone]
    exact unbacked_steps (alone ▸ readable) sound
  · rw [if_neg alone]
    exact backed_steps (readable_placed readable alone) sound

theorem storing_sound {abc : BootloaderControl} (sound : Sound crc32 abc) : Sound crc32 (storing crc32 abc true) := by
  obtain ⟨_,magic,version,_⟩ := choose_slot_counts abc.toControlBody
  exact ⟨storing_valid abc,magic.trans sound.magic,version.trans_le sound.version⟩

/-! ## Runs -/

structure Serves (part_info : DiskPartition) (attempt : Attempt) : Prop where
  chosen : Chosen (attempt.before (primary_at part_info)).control.toControlBody attempt.ret
  counted : Counted (attempt.before (primary_at part_info)).control.toControlBody
    (attempt.after (primary_at part_info)).control.toControlBody attempt.ret

def returned (run : List Attempt) (slot : Fin 4) : ℕ := run.countP fun attempt => attempt.ret = (slot.val : ℤ)

theorem one_call (readable : Readable device part_info backup_offset)
    (sound : Sound crc32 (device (primary_at part_info)).control) :
    Serves part_info ⟨device,(select_slot crc32 backup_offset device part_info true).ret,
        stored device (select_slot crc32 backup_offset device part_info true).writes⟩ ∧
      Sound crc32 (stored device (select_slot crc32 backup_offset device part_info true).writes (primary_at part_info)).control := by
  obtain ⟨ret,left⟩ := select_slot_steps readable sound
  obtain ⟨_,_,_,counted⟩ := choose_slot_counts (device (primary_at part_info)).control.toControlBody
  refine ⟨⟨?_,?_⟩,?_⟩
  · dsimp only
    rw [ret]
    exact selected_chosen _
  · dsimp only
    rw [ret,left]
    exact counted
  · rw [left]
    exact storing_sound sound

/-- In a run of any length each call returns the best bootable slot and counts the attempt,
    so that a slot that has not booted is returned at most as often as it has tries. -/
theorem run_serves (n : ℕ) (readable : Readable device part_info backup_offset)
    (sound : Sound crc32 (device (primary_at part_info)).control) :
    (∀ attempt ∈ calls (fun device => select_slot crc32 backup_offset device part_info true) n device,
      Serves part_info attempt) ∧
    ∀ slot, ((device (primary_at part_info)).control.slot_info slot).successful_boot = 0 →
      returned (calls (fun device => select_slot crc32 backup_offset device part_info true) n device) slot ≤
        ((device (primary_at part_info)).control.slot_info slot).tries_remaining.toNat := by
  induction n generalizing device with
  | zero => exact ⟨fun attempt member => absurd member List.not_mem_nil,fun slot _ => Nat.zero_le _⟩
  | succ n ih =>
    obtain ⟨serves,kept⟩ := one_call readable sound
    obtain ⟨later,bounded⟩ := ih (readable_after readable) kept
    rw [calls]
    refine ⟨List.forall_mem_cons.mpr ⟨serves,later⟩,?_⟩
    intro slot fresh
    obtain ⟨same,count⟩ := serves.counted slot
    have rest := bounded slot (same.trans fresh)
    dsimp only at count
    rw [returned] at rest ⊢
    rw [List.countP_cons]
    simp only [fresh,and_true,decide_eq_true_eq] at count ⊢
    omega
end

/-- Twelve calls with two slots that have five tries each. -/
theorem run_serves_twelve :
    Readable (sample_device (sample_control 5)) sample_part 0x1000 ∧
      Sound checksum (sample_device (sample_control 5) (primary_at sample_part)).control ∧
      returned (calls (fun device => select_slot checksum 0x1000 device sample_part true) 12
        (sample_device (sample_control 5))) 0 ≤ 5 := by
  have readable : Readable (sample_device (sample_control 5)) sample_part 0x1000 := ⟨⟨_,rfl⟩,_,rfl⟩
  have sound : Sound checksum (sample_device (sample_control 5) (primary_at sample_part)).control :=
    ⟨sample_valid (sample_control 5),rfl,UInt8.le_refl _⟩
  exact ⟨readable,sound,(run_serves 12 readable sound).2 0 rfl⟩

end UBoot.AndroidAbRuns
