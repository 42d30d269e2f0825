import UBoot.PowerCuts
import UBoot.Runs
import UBoot.Buffers
import UBoot.EnvRedund

/-!
The FWU metadata and its two copies, `lib/fwu_updates/fwu.c`, for version 1 of the metadata. The
checksum of the bytes behind `crc32` is an argument; reads and writes of a copy succeed unless the
power fails, and a bank is one of those that the build has.

A boot that finds no copy with a valid checksum takes the contents of the secondary for good and
writes them to both under new checksums.
-/
namespace UBoot.Fwu
open UBoot.PowerCuts UBoot.Runs List Function

def EINVAL : ℤ := 22
def ENOENT : ℤ := 2

def FWU_IMAGE_ACCEPTED : UInt32 := 1

abbrev Guid := BitVec 128

structure ImageBankInfo where
  image_guid : Guid
  accepted : UInt32
  reserved : UInt32
deriving DecidableEq

/-- `struct fwu_image_entry`, for `CONFIG_FWU_NUM_BANKS` banks. -/
structure ImageEntry (banks : ℕ) where
  image_type_guid : Guid
  location_guid : Guid
  img_bank_info : Fin banks → ImageBankInfo
deriving DecidableEq

/-- The fields of `struct fwu_mdata` behind the checksum. -/
structure Contents (banks images : ℕ) where
  version : UInt32
  active_index : UInt32
  previous_active_index : UInt32
  img_entry : Fin images → ImageEntry banks
deriving DecidableEq

structure Mdata (banks images : ℕ) extends Contents banks images where
  crc32 : UInt32
deriving DecidableEq

/-- The fields of `struct fwu_data` that the functions below read and change besides
    the metadata; the checksum is `fwu_data_crc_update`'s. -/
structure FwuData (banks images : ℕ) where
  crc32 : UInt32
  active_index : UInt32
  previous_active_index : UInt32
  fwu_images : Fin images → ImageEntry banks

inductive Part where
  | PRIMARY_PART
  | SECONDARY_PART
deriving DecidableEq

section
variable {banks images : ℕ} (crc32 : Contents banks images → UInt32)

def mdata_crc_check (mdata : Mdata banks images) : Bool := crc32 mdata.toContents = mdata.crc32

def synced (mdata : Mdata banks images) : Mdata banks images := ⟨mdata.toContents,crc32 mdata.toContents⟩

/-- The writes of `fwu_sync_mdata` for `BOTH_PARTS`. -/
def sync_both (mdata : Mdata banks images) : List (Part × Mdata banks images) :=
  [(.SECONDARY_PART,synced crc32 mdata),(.PRIMARY_PART,synced crc32 mdata)]

/-- What `fwu_get_mdata` returns, the metadata that it leaves in memory and gives to the
    caller, and the writes that it makes on the way. -/
structure GetMdata (banks images : ℕ) where
  err : ℤ
  mdata : Mdata banks images
  writes : List (Part × Mdata banks images)

/-- `fwu_get_mdata` with the first of the two copies in memory. -/
def fwu_get_mdata (device : Part → Mdata banks images) (memory : Mdata banks images) : GetMdata banks images :=
  -- if mdata already read and ready
  if mdata_crc_check crc32 memory then ⟨0,memory,[]⟩
  else
    let first := device .PRIMARY_PART
    let second := device .SECONDARY_PART
    let first_ok := mdata_crc_check crc32 first
    let second_ok := mdata_crc_check crc32 second
    if first_ok && second_ok && first == second then ⟨0,first,[]⟩
    else
      let second_ok := if first_ok && second_ok then false else second_ok
      let (first,repairs) := if first_ok then (first,[]) else (synced crc32 second,[(Part.PRIMARY_PART,synced crc32 second)])
      let repairs := if second_ok then repairs else repairs ++ [(Part.SECONDARY_PART,synced crc32 first)]
      ⟨0,first,repairs⟩

structure Memory (banks images : ℕ) where
  mdata : Mdata banks images
  data : FwuData banks images

/-- What an operation returns, what it leaves in memory, and its writes. -/
structure Result (banks images : ℕ) where
  ret : ℤ
  memory : Memory banks images
  writes : List (Part × Mdata banks images)

/-- The end of the operations: the metadata are written to both copies. -/
def sync_mdata (data : FwuData banks images) (contents : Contents banks images) : Result banks images :=
  let mdata : Mdata banks images := ⟨contents,crc32 contents⟩
  ⟨0,⟨mdata,{ data with crc32 := crc32 contents }⟩,sync_both crc32 mdata⟩

def fwu_populate_mdata_bank_index (data : FwuData banks images) (mdata : Mdata banks images) : Contents banks images :=
  { mdata.toContents with active_index := data.active_index, previous_active_index := data.previous_active_index }

def fwu_populate_mdata_image_info (data : FwuData banks images) (mdata : Mdata banks images) : Contents banks images :=
  { mdata.toContents with img_entry := data.fwu_images }

def fwu_set_active_index (memory : Memory banks images) (active_idx : UInt32) : Result banks images :=
  if banks ≤ active_idx.toNat then ⟨-EINVAL,memory,[]⟩
  else
    let data := { memory.data with
      previous_active_index := memory.data.active_index
      active_index := active_idx }
    sync_mdata crc32 data (fwu_populate_mdata_bank_index data memory.mdata)

def fwu_revert_boot_index (memory : Memory banks images) : Result banks images :=
  let data := { memory.data with
    active_index := memory.data.previous_active_index
    previous_active_index := memory.data.active_index }
  sync_mdata crc32 data (fwu_populate_mdata_bank_index data memory.mdata)

/-- `fwu_clrset_image_accept`: the first image of the type has its bit set or cleared. -/
def fwu_clrset_image_accept (memory : Memory banks images) (img_type_id : Guid) (bank : Fin banks) (set : Bool) :
    Result banks images :=
  match (List.finRange images).find? fun i => (memory.data.fwu_images i).image_type_guid == img_type_id with
  | none => ⟨-ENOENT,memory,[]⟩
  | some i =>
    let entry := memory.data.fwu_images i
    let info := entry.img_bank_info bank
    let accepted := if set then info.accepted ||| FWU_IMAGE_ACCEPTED else 0
    let entry := { entry with img_bank_info := Function.update entry.img_bank_info bank { info with accepted } }
    let data := { memory.data with fwu_images := Function.update memory.data.fwu_images i entry }
    sync_mdata crc32 data (fwu_populate_mdata_image_info data memory.mdata)

def fwu_accept_image (memory : Memory banks images) (img_type_id : Guid) (bank : Fin banks) : Result banks images :=
  fwu_clrset_image_accept crc32 memory img_type_id bank true

def fwu_clear_accept_image (memory : Memory banks images) (img_type_id : Guid) (bank : Fin banks) : Result banks images :=
  fwu_clrset_image_accept crc32 memory img_type_id bank false

/-- `fwu_data_init` of version 1: the fields from the metadata. -/
def fwu_data_init (mdata : Mdata banks images) : FwuData banks images :=
  ⟨mdata.crc32,mdata.active_index,mdata.previous_active_index,mdata.img_entry⟩

def fresh : Mdata banks images := ⟨⟨0,0,0,fun _ => ⟨0,0,fun _ => ⟨0,0,0⟩⟩⟩,0⟩

/-! ## The machine -/

inductive Operation (banks : ℕ) where
  | set_active_index (active_idx : UInt32)
  | revert_boot_index
  | accept_image (img_type_id : Guid) (bank : Fin banks)
  | clear_accept_image (img_type_id : Guid) (bank : Fin banks)

def perform (memory : Memory banks images) : Operation banks → Result banks images
  | .set_active_index active_idx => fwu_set_active_index crc32 memory active_idx
  | .revert_boot_index => fwu_revert_boot_index crc32 memory
  | .accept_image img_type_id bank => fwu_accept_image crc32 memory img_type_id bank
  | .clear_accept_image img_type_id bank => fwu_clear_accept_image crc32 memory img_type_id bank

/-- The power holds, or it fails after some writes and may tear the next one. -/
inductive Power (crc32 : Contents banks images → UInt32) where
  | holds
  | fails (done : ℕ) (torn : Option { mdata : Mdata banks images // mdata_crc_check crc32 mdata = false })

inductive Event (crc32 : Contents banks images → UInt32) where
  | boot (power : Power crc32)
  | get_mdata
  | operate (operation : Operation banks) (power : Power crc32)

/-- The two copies, the memory of a machine that runs, and the contents before and after
    the last operation. -/
structure Machine (banks images : ℕ) where
  device : Part → Mdata banks images
  memory : Option (Memory banks images)
  before : Contents banks images
  after : Contents banks images

def Power.leaves {crc32 : Contents banks images → UInt32} (power : Power crc32) (device : Part → Mdata banks images)
    (writes : List (Part × Mdata banks images)) : Part → Mdata banks images :=
  match power with
  | .holds => stored device writes
  | .fails done torn => cut_at device writes done (torn.map Subtype.val)

def step (m : Machine banks images) : Event crc32 → Machine banks images
  | .boot power =>
    let got := fwu_get_mdata crc32 m.device fresh
    let device := power.leaves m.device got.writes
    match power with
    | .holds => { m with device, memory := if got.err = 0 then some ⟨got.mdata,fwu_data_init got.mdata⟩ else none }
    | .fails _ _ => { m with device, memory := none }
  | .get_mdata =>
    match m.memory with
    | none => m
    | some memory =>
      let got := fwu_get_mdata crc32 m.device memory.mdata
      { m with device := stored m.device got.writes, memory := some { memory with mdata := got.mdata } }
  | .operate operation power =>
    match m.memory with
    | none => m
    | some memory =>
      let result := perform crc32 memory operation
      let device := power.leaves m.device result.writes
      match power with
      | .holds => ⟨device,some result.memory,memory.mdata.toContents,result.memory.mdata.toContents⟩
      | .fails _ _ => ⟨device,none,memory.mdata.toContents,result.memory.mdata.toContents⟩

/-- The contents that the copies stand for: those of the primary unless only the
    secondary passes its checksum. -/
def current (device : Part → Mdata banks images) : Contents banks images :=
  if mdata_crc_check crc32 (device .PRIMARY_PART) then (device .PRIMARY_PART).toContents
  else (device .SECONDARY_PART).toContents

def start (device : Part → Mdata banks images) : Machine banks images :=
  ⟨device,none,current crc32 device,current crc32 device⟩
end

/-! ## What a boot and an operation leave -/

section
variable {banks images : ℕ} {crc32 : Contents banks images → UInt32} {device : Part → Mdata banks images}

def Redundant (crc32 : Contents banks images → UInt32) (device : Part → Mdata banks images) : Prop :=
  device .PRIMARY_PART = device .SECONDARY_PART ∧ mdata_crc_check crc32 (device .PRIMARY_PART) = true

def Kept (crc32 : Contents banks images → UInt32) (device : Part → Mdata banks images) : Prop :=
  mdata_crc_check crc32 (device .PRIMARY_PART) = true ∨ mdata_crc_check crc32 (device .SECONDARY_PART) = true

variable {mdata memory : Mdata banks images}

theorem synced_eq (valid : mdata_crc_check crc32 mdata = true) : synced crc32 mdata = mdata := by
  obtain ⟨contents,sum⟩ := mdata
  have same : crc32 contents = sum := of_decide_eq_true valid
  rw [synced]
  dsimp only
  rw [same]

theorem current_primary (valid : mdata_crc_check crc32 (device .PRIMARY_PART) = true) :
    current crc32 device = (device .PRIMARY_PART).toContents := if_pos valid

theorem current_secondary (torn : mdata_crc_check crc32 (device .PRIMARY_PART) = false) :
    current crc32 device = (device .SECONDARY_PART).toContents := if_neg (by rw [torn]; exact Bool.false_ne_true)

theorem get_mdata_cached (valid : mdata_crc_check crc32 memory = true) :
    fwu_get_mdata crc32 device memory = ⟨0,memory,[]⟩ := if_pos valid

theorem get_mdata_primary (unread : mdata_crc_check crc32 memory = false)
    (valid : mdata_crc_check crc32 (device .PRIMARY_PART) = true) :
    ∃ writes, fwu_get_mdata crc32 device memory = ⟨0,device .PRIMARY_PART,writes⟩ ∧
      (writes = [] ∧ device .PRIMARY_PART = device .SECONDARY_PART ∨
        writes = [(.SECONDARY_PART,device .PRIMARY_PART)]) := by
  rw [fwu_get_mdata,if_neg (by rw [unread]; exact Bool.false_ne_true)]
  dsimp only
  rw [valid]
  simp only [↓reduceIte]
  rw [synced_eq valid]
  by_cases same : device .PRIMARY_PART = device .SECONDARY_PART
  · have also : mdata_crc_check crc32 (device .SECONDARY_PART) = true := same ▸ valid
    rw [also,if_pos (by simpa using same)]
    exact ⟨[],rfl,.inl ⟨rfl,same⟩⟩
  · rw [if_neg (by simp [same])]
    refine ⟨[(.SECONDARY_PART,device .PRIMARY_PART)],?_,.inr rfl⟩
    cases mdata_crc_check crc32 (device .SECONDARY_PART) with
    | false => rfl
    | true => rfl

theorem get_mdata_secondary (unread : mdata_crc_check crc32 memory = false)
    (torn : mdata_crc_check crc32 (device .PRIMARY_PART) = false)
    (valid : mdata_crc_check crc32 (device .SECONDARY_PART) = true) :
    fwu_get_mdata crc32 device memory = ⟨0,device .SECONDARY_PART,[(.PRIMARY_PART,device .SECONDARY_PART)]⟩ := by
  rw [fwu_get_mdata,if_neg (by rw [unread]; exact Bool.false_ne_true)]
  dsimp only
  rw [torn,valid,synced_eq valid]
  rfl

theorem get_mdata_neither (unread : mdata_crc_check crc32 memory = false)
    (first : mdata_crc_check crc32 (device .PRIMARY_PART) = false)
    (second : mdata_crc_check crc32 (device .SECONDARY_PART) = false) :
    (fwu_get_mdata crc32 device memory).err = 0 := by
  rw [fwu_get_mdata,if_neg (by rw [unread]; exact Bool.false_ne_true)]
  dsimp only
  rw [first,second]
  rfl

theorem power_cut (power : Power crc32) (writes : List (Part × Mdata banks images)) :
    Cut (fun mdata => mdata_crc_check crc32 mdata = false) device writes (power.leaves device writes) := by
  cases power with
  | holds =>
    have whole := @cut_cut_at _ _ _ (fun mdata => mdata_crc_check crc32 mdata = false) device writes writes.length none
      (fun t member => absurd member (by simp))
    have all : cut_at device writes writes.length none = stored device writes := by
      rw [cut_at,take_length]
      simp
    rw [all] at whole
    exact whole
  | fails done torn =>
    refine cut_cut_at device writes done ?_
    intro t member
    obtain ⟨mdata,_,rfl⟩ := Option.map_eq_some_iff.mp member
    exact mdata.2

theorem kept_primary {after : Part → Mdata banks images}
    (valid : mdata_crc_check crc32 (device .PRIMARY_PART) = true) {writes : List (Part × Mdata banks images)}
    (elsewhere : writes = [] ∨ writes = [(.SECONDARY_PART,mdata)])
    (cut : Cut (fun mdata => mdata_crc_check crc32 mdata = false) device writes after) :
    Kept crc32 after ∧ current crc32 after = current crc32 device := by
  have same : after .PRIMARY_PART = device .PRIMARY_PART := by
    refine cut_elsewhere ?_ cut
    intro w member
    rcases elsewhere with rfl | rfl
    · exact absurd member not_mem_nil
    · rw [mem_singleton.mp member]
      exact fun equal => by cases equal
  have valid_after : mdata_crc_check crc32 (after .PRIMARY_PART) = true := same ▸ valid
  refine ⟨.inl valid_after,?_⟩
  rw [current_primary valid_after,current_primary valid,same]

theorem kept_secondary {after : Part → Mdata banks images}
    (torn : mdata_crc_check crc32 (device .PRIMARY_PART) = false)
    (valid : mdata_crc_check crc32 (device .SECONDARY_PART) = true)
    (cut : Cut (fun mdata => mdata_crc_check crc32 mdata = false) device [(.PRIMARY_PART,device .SECONDARY_PART)] after) :
    Kept crc32 after ∧ current crc32 after = current crc32 device := by
  have same : after .SECONDARY_PART = device .SECONDARY_PART := by
    refine cut_elsewhere ?_ cut
    intro w member
    rw [mem_singleton.mp member]
    exact fun equal => by cases equal
  refine ⟨.inr (same ▸ valid),?_⟩
  rw [current_secondary torn]
  rcases cut_cons cut with rfl | ⟨t,fails,rfl⟩ | behind
  · exact current_secondary torn
  · rw [current_secondary (by rw [update_self]; exact fails),same]
  · rw [cut_nil behind,current_primary (by rw [update_self]; exact valid),update_self]

theorem boot_kept (unread : mdata_crc_check crc32 (fresh : Mdata banks images) = false) (kept : Kept crc32 device) :
    let got := fwu_get_mdata crc32 device fresh
    got.err = 0 ∧ got.mdata.toContents = current crc32 device ∧
      Redundant crc32 (stored device got.writes) ∧ stored device got.writes .PRIMARY_PART = got.mdata ∧
      ∀ power : Power crc32, Kept crc32 (power.leaves device got.writes) ∧
        current crc32 (power.leaves device got.writes) = current crc32 device := by
  intro got
  by_cases valid : mdata_crc_check crc32 (device .PRIMARY_PART) = true
  · obtain ⟨writes,returns,repairs⟩ := get_mdata_primary unread valid
    have got_eq : got = ⟨0,device .PRIMARY_PART,writes⟩ := returns
    rw [got_eq]
    refine ⟨rfl,(current_primary valid).symm,?_,?_,?_⟩
    · rcases repairs with ⟨rfl,same⟩ | rfl
      · exact ⟨same,valid⟩
      · exact ⟨rfl,valid⟩
    · rcases repairs with ⟨rfl,_⟩ | rfl
      · rfl
      · rfl
    · intro power
      exact kept_primary valid (repairs.imp And.left id) (power_cut power writes)
  · have torn := Bool.eq_false_of_not_eq_true valid
    have other : mdata_crc_check crc32 (device .SECONDARY_PART) = true := kept.resolve_left valid
    have got_eq : got = ⟨0,device .SECONDARY_PART,[(.PRIMARY_PART,device .SECONDARY_PART)]⟩ :=
      get_mdata_secondary unread torn other
    rw [got_eq]
    refine ⟨rfl,(current_secondary torn).symm,⟨rfl,other⟩,rfl,?_⟩
    intro power
    exact kept_secondary torn other (power_cut power _)

/-- An operation that changes nothing, or that has written what it leaves to both places. -/
def Saves (crc32 : Contents banks images → UInt32) (memory : Memory banks images) (result : Result banks images) : Prop :=
  result.writes = [] ∧ result.memory = memory ∨ mdata_crc_check crc32 result.memory.mdata = true ∧
    result.writes = [(.SECONDARY_PART,result.memory.mdata),(.PRIMARY_PART,result.memory.mdata)]

theorem perform_cases (crc32 : Contents banks images → UInt32) (memory : Memory banks images) (operation : Operation banks) :
    Saves crc32 memory (perform crc32 memory operation) := by
  have synced_both (data : FwuData banks images) (contents : Contents banks images) :
      Saves crc32 memory (sync_mdata crc32 data contents) := .inr ⟨decide_eq_true rfl,rfl⟩
  have accepts (img_type_id : Guid) (bank : Fin banks) (set : Bool) :
      Saves crc32 memory (fwu_clrset_image_accept crc32 memory img_type_id bank set) := by
    rw [fwu_clrset_image_accept]
    split
    · exact .inl ⟨rfl,rfl⟩
    · exact synced_both _ _
  cases operation with
  | set_active_index active_idx =>
    rw [perform,fwu_set_active_index]
    split
    · exact .inl ⟨rfl,rfl⟩
    · exact synced_both _ _
  | revert_boot_index => exact synced_both _ _
  | accept_image img_type_id bank => exact accepts img_type_id bank true
  | clear_accept_image img_type_id bank => exact accepts img_type_id bank false

theorem operation_kept {after : Part → Mdata banks images} (redundant : Redundant crc32 device)
    (valid : mdata_crc_check crc32 mdata = true)
    (cut : Cut (fun mdata => mdata_crc_check crc32 mdata = false) device
      [(.SECONDARY_PART,mdata),(.PRIMARY_PART,mdata)] after) :
    Kept crc32 after ∧ (current crc32 after = (device .PRIMARY_PART).toContents ∨ current crc32 after = mdata.toContents) := by
  obtain ⟨_,primary⟩ := redundant
  -- while the primary is the old one, the copies stand for it
  have old {other : Part → Mdata banks images} (same : other .PRIMARY_PART = device .PRIMARY_PART) :
      Kept crc32 other ∧ (current crc32 other = (device .PRIMARY_PART).toContents ∨ current crc32 other = mdata.toContents) := by
    have still : mdata_crc_check crc32 (other .PRIMARY_PART) = true := same ▸ primary
    exact ⟨.inl still,.inl ((current_primary still).trans (congrArg Mdata.toContents same))⟩
  rcases cut_cons cut with rfl | ⟨t,_,rfl⟩ | behind
  · exact old rfl
  · exact old rfl
  · rcases cut_cons behind with rfl | ⟨t,fails,rfl⟩ | rest
    · exact old rfl
    · exact ⟨.inr valid,.inr (current_secondary fails)⟩
    · rw [cut_nil rest]
      exact ⟨.inl valid,.inr (current_primary valid)⟩

/-! ## Runs -/

/-- One copy passes its checksum, the copies stand for the contents before or after the
    last operation, and those in the memory of a machine that runs are in both. -/
structure Inv (crc32 : Contents banks images → UInt32) (m : Machine banks images) : Prop where
  kept : Kept crc32 m.device
  current : current crc32 m.device = m.before ∨ current crc32 m.device = m.after
  memory : ∀ memory ∈ m.memory, Redundant crc32 m.device ∧ m.device .PRIMARY_PART = memory.mdata

/-- What is said of an event: `fwu_get_mdata` returns the contents before or after the
    last operation and leaves both copies equal and valid; a boot that finds no copy that
    passes its checksum fails and writes nothing. -/
def Meets (crc32 : Contents banks images → UInt32) (m : Machine banks images) : Event crc32 → Prop
  | .boot power =>
    let got := fwu_get_mdata crc32 m.device fresh
    (mdata_crc_check crc32 (m.device .PRIMARY_PART) = false → mdata_crc_check crc32 (m.device .SECONDARY_PART) = false →
      got.err ≠ 0 ∧ got.writes = []) ∧
    (power = .holds → got.err = 0 → (got.mdata.toContents = m.before ∨ got.mdata.toContents = m.after) ∧
      Redundant crc32 (step crc32 m (.boot power)).device)
  | .get_mdata => ∀ memory ∈ m.memory,
    let got := fwu_get_mdata crc32 m.device memory.mdata
    got.err = 0 → (got.mdata.toContents = m.before ∨ got.mdata.toContents = m.after) ∧
      Redundant crc32 (step crc32 m .get_mdata).device
  | .operate _ _ => True

def Finds (crc32 : Contents banks images → UInt32) (m : Machine banks images) : Event crc32 → Prop
  | .boot _ => Kept crc32 m.device
  | _ => True

variable {m : Machine banks images}

theorem Inv.memory_valid (inv : Inv crc32 m) {memory : Memory banks images} (runs : memory ∈ m.memory) :
    mdata_crc_check crc32 memory.mdata = true := by
  obtain ⟨⟨_,valid⟩,same⟩ := inv.memory memory runs
  exact same ▸ valid

theorem Inv.memory_current (inv : Inv crc32 m) {memory : Memory banks images} (runs : memory ∈ m.memory) :
    memory.mdata.toContents = m.before ∨ memory.mdata.toContents = m.after := by
  obtain ⟨⟨_,valid⟩,same⟩ := inv.memory memory runs
  have contents := inv.current
  rw [current_primary valid,same] at contents
  exact contents

theorem inv_boot (unread : mdata_crc_check crc32 (fresh : Mdata banks images) = false) (inv : Inv crc32 m) (power : Power crc32) :
    Inv crc32 (step crc32 m (.boot power)) := by
  obtain ⟨succeeds,_,redundant,same,survives⟩ := boot_kept unread inv.kept
  obtain ⟨kept,still⟩ := survives power
  have contents := inv.current
  rw [← still] at contents
  cases power with
  | holds =>
    refine ⟨kept,contents,?_⟩
    intro memory runs
    simp only [step,succeeds] at runs
    obtain rfl := Option.some.inj runs
    exact ⟨redundant,same⟩
  | fails done torn =>
    refine ⟨kept,contents,?_⟩
    intro memory runs
    cases runs

theorem inv_operate (inv : Inv crc32 m) (operation : Operation banks) (power : Power crc32) :
    Inv crc32 (step crc32 m (.operate operation power)) := by
  rw [step]
  cases runs : m.memory with
  | none => exact inv
  | some memory =>
    obtain ⟨redundant,same⟩ := inv.memory memory runs
    have left := @power_cut _ _ crc32 m.device power (perform crc32 memory operation).writes
    have outcome : Kept crc32 (power.leaves m.device (perform crc32 memory operation).writes) ∧
        (current crc32 (power.leaves m.device (perform crc32 memory operation).writes) = memory.mdata.toContents ∨
          current crc32 (power.leaves m.device (perform crc32 memory operation).writes) =
            (perform crc32 memory operation).memory.mdata.toContents) := by
      rcases perform_cases crc32 memory operation with ⟨nothing,_⟩ | ⟨valid,both⟩
      · rw [nothing] at left ⊢
        rw [cut_nil left]
        exact ⟨inv.kept,.inl ((current_primary redundant.2).trans (congrArg Mdata.toContents same))⟩
      · rw [both] at left ⊢
        have kept := operation_kept redundant valid left
        rw [same] at kept
        exact kept
    cases power with
    | holds =>
      refine ⟨outcome.1,outcome.2,?_⟩
      intro memory' runs'
      obtain rfl := Option.some.inj runs'
      rcases perform_cases crc32 memory operation with ⟨nothing,unchanged⟩ | ⟨valid,both⟩
      · dsimp only
        rw [nothing,unchanged]
        exact ⟨redundant,same⟩
      · dsimp only
        rw [both]
        exact ⟨⟨rfl,valid⟩,rfl⟩
    | fails done torn =>
      refine ⟨outcome.1,outcome.2,?_⟩
      intro memory' runs'
      cases runs'

theorem step_get_mdata (inv : Inv crc32 m) : step crc32 m .get_mdata = m := by
  rw [step]
  cases runs : m.memory with
  | none => rfl
  | some memory =>
    dsimp only
    rw [get_mdata_cached (inv.memory_valid runs),← runs]
    rfl

theorem inv_step (unread : mdata_crc_check crc32 (fresh : Mdata banks images) = false) (inv : Inv crc32 m) (e : Event crc32) :
    Inv crc32 (step crc32 m e) := by
  cases e with
  | boot power => exact inv_boot unread inv power
  | get_mdata =>
    rw [step_get_mdata inv]
    exact inv
  | operate operation power => exact inv_operate inv operation power

theorem step_meets (unread : mdata_crc_check crc32 (fresh : Mdata banks images) = false) (inv : Inv crc32 m) (e : Event crc32) :
    Meets crc32 m e := by
  cases e with
  | boot power =>
    obtain ⟨_,contents,redundant,_,_⟩ := boot_kept unread inv.kept
    constructor
    · intro first second
      rcases inv.kept with valid | valid
      · rw [first] at valid
        cases valid
      · rw [second] at valid
        cases valid
    · rintro rfl _
      rw [contents]
      exact ⟨inv.current,redundant⟩
  | get_mdata =>
    intro memory runs got _
    have cached : got = ⟨0,memory.mdata,[]⟩ := get_mdata_cached (inv.memory_valid runs)
    rw [cached,step_get_mdata inv]
    exact ⟨inv.memory_current runs,(inv.memory memory runs).1⟩
  | operate operation power => trivial

theorem step_finds (inv : Inv crc32 m) (e : Event crc32) : Finds crc32 m e := by
  cases e with
  | boot power => exact inv.kept
  | get_mdata => trivial
  | operate operation power => trivial

theorem blank_iff (unread : mdata_crc_check crc32 (fresh : Mdata banks images) = false) (blank : ¬ Kept crc32 m.device)
    (off : m.memory = none) (events : List (Event crc32)) :
    Along (step crc32) (Meets crc32) m events ↔ Along (step crc32) (Finds crc32) m events := by
  induction events with
  | nil => exact Iff.rfl
  | cons e rest ih =>
    simp only [Kept,not_or,Bool.not_eq_true] at blank
    cases e with
    | boot power =>
      constructor
      · rintro ⟨meets,_⟩
        exact absurd (get_mdata_neither unread blank.1 blank.2) (meets.1 blank.1 blank.2).1
      · rintro ⟨finds,_⟩
        rcases finds with valid | valid
        · rw [blank.1] at valid
          cases valid
        · rw [blank.2] at valid
          cases valid
    | get_mdata =>
      have same : step crc32 m .get_mdata = m := by rw [step,off]
      simp only [Along,same]
      refine and_congr ⟨fun _ => trivial,fun _ memory runs => ?_⟩ ih
      rw [off] at runs
      cases runs
    | operate operation power =>
      have same : step crc32 m (.operate operation power) = m := by rw [step,off]
      simp only [Along,same]
      exact and_congr Iff.rfl ih

theorem inv_start (kept : Kept crc32 device) : Inv crc32 (start crc32 device) :=
  ⟨kept,.inl rfl,fun _ runs => absurd runs (by simp [start])⟩

/-- A run does what is said of its events exactly if each of its boots finds a copy that
    passes its checksum. -/
theorem metadata_redundant_iff (unread : mdata_crc_check crc32 (fresh : Mdata banks images) = false)
    (device : Part → Mdata banks images) (events : List (Event crc32)) :
    Along (step crc32) (Meets crc32) (start crc32 device) events ↔
      Along (step crc32) (Finds crc32) (start crc32 device) events := by
  by_cases kept : Kept crc32 device
  · have inv := inv_start kept
    have along : Along (step crc32) (fun _ _ => True) (start crc32 device) events := along_of_forall (fun _ _ => trivial) _ _
    constructor
    · intro _
      exact along_of_invariant (fun m e inv _ => inv_step unread inv e) (fun m e inv _ => step_finds inv e) inv along
    · intro _
      exact along_of_invariant (fun m e inv _ => inv_step unread inv e) (fun m e inv _ => step_meets unread inv e) inv along
  · exact blank_iff unread kept rfl events
end

/-! ## Two banks with one image -/

def contents_bytes {banks images : ℕ} (c : Contents banks images) : List UInt8 :=
  Buffers.little 4 c.version.toNat ++ Buffers.little 4 c.active_index.toNat ++ Buffers.little 4 c.previous_active_index.toNat ++
  (List.finRange images).flatMap fun i =>
    Buffers.little 16 (c.img_entry i).image_type_guid.toNat ++ Buffers.little 16 (c.img_entry i).location_guid.toNat ++
    (List.finRange banks).flatMap fun b =>
      Buffers.little 16 ((c.img_entry i).img_bank_info b).image_guid.toNat ++
      Buffers.little 4 ((c.img_entry i).img_bank_info b).accepted.toNat ++
      Buffers.little 4 ((c.img_entry i).img_bank_info b).reserved.toNat

/-- The checksum of `lib/crc32.c`. -/
def checksum (c : Contents 2 1) : UInt32 := Env.crc32 (contents_bytes c)

def sample : Mdata 2 1 :=
  let contents : Contents 2 1 := ⟨1,0,1,fun _ => ⟨7,8,fun _ => ⟨9,1,0⟩⟩⟩
  ⟨contents,checksum contents⟩

theorem fresh_unread : mdata_crc_check checksum (fresh : Mdata 2 1) = false := by
  have bytes : contents_bytes (fresh : Mdata 2 1).toContents =
      replicate 23 0 ++ replicate 23 0 ++ replicate 23 0 ++ replicate 23 0 := by decide +kernel
  have first : Env.crc32_no_comp 0xffffffff (replicate 23 0) = 2371869627 := by decide +kernel
  have second : Env.crc32_no_comp 2371869627 (replicate 23 0) = 4236310292 := by decide +kernel
  have third : Env.crc32_no_comp 4236310292 (replicate 23 0) = 2240419913 := by decide +kernel
  have fourth : Env.crc32_no_comp 2240419913 (replicate 23 0) = 1028315416 := by decide +kernel
  have sum : checksum (fresh : Mdata 2 1).toContents = 1028315416 ^^^ 0xffffffff := by
    rw [checksum,bytes,Env.crc32,Env.crc32_no_comp,foldl_append,foldl_append,foldl_append]
    rw [Env.crc32_no_comp] at first second third fourth
    rw [first,second,third,fourth]
  rw [mdata_crc_check,sum]
  decide

/-- An update of the active index that is cut in its second write, and the next boot. -/
theorem metadata_redundant_iff_cut :
    Along (step checksum) (Meets checksum) (start checksum fun _ => sample)
      [.boot .holds,.operate (.set_active_index 1) (.fails 1 (some ⟨fresh,fresh_unread⟩)),.boot .holds] := by
  refine (metadata_redundant_iff fresh_unread _ _).mpr ?_
  have kept : Kept checksum fun _ => sample := .inl (decide_eq_true rfl)
  exact along_of_invariant (fun m e inv _ => inv_step fresh_unread inv e) (fun m e inv _ => step_finds inv e)
    (inv_start kept) (along_of_forall (fun _ _ => trivial) _ _)

/-- A boot that finds two copies of zeros succeeds. -/
theorem neither_copy_accepted :
    ¬ ∀ (device : Part → Mdata 2 1) (events : List (Event checksum)),
      Along (step checksum) (Meets checksum) (start checksum device) events := by
  intro meets
  have boot := (meets (fun _ => fresh) [.boot .holds]).1.1 fresh_unread fresh_unread
  exact boot.1 (get_mdata_neither fresh_unread fresh_unread fresh_unread)

end UBoot.Fwu
