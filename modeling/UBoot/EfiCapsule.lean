import UBoot.EfiImageParse

/-!
Firmware updates from a capsule, `lib/efi_loader/efi_capsule.c`. A pointer into the capsule is its
distance from the start of the capsule, in 64 bit, so a byte in front of the capsule is far behind
it. The bytes that are read and the images that are handed to a driver are written down in their
order. Of the sums only the one for the header of an image is checked, and it may wrap.
-/
namespace UBoot.EfiCapsule
open UBoot.Memory UBoot.Buffers List
open UBoot.EfiImageParse (ImageRegion efi_image_region_add)

inductive Status where
  | EFI_SUCCESS
  | EFI_INVALID_PARAMETER
  | EFI_UNSUPPORTED
  | EFI_DEVICE_ERROR
  | EFI_NOT_FOUND
  | EFI_OUT_OF_RESOURCES
  | EFI_SECURITY_VIOLATION
  | other (code : ℕ)
deriving DecidableEq, Repr

def EIO : ℤ := 5
def ENODEV : ℤ := 19
def EINVAL : ℤ := 22
def ERANGE : ℤ := 34

def FW_ACCEPT_OS : ℕ := 0x8000
def CAPSULE_SUPPORT_AUTHENTICATION : ℕ := 1

/-- `sizeof(struct efi_firmware_management_capsule_header)` -/
def capsule_header_size : ℕ := 8

/-- `sizeof(struct efi_firmware_management_capsule_image_header)` -/
def image_header_size : ℕ := 48

/-- `sizeof(struct efi_firmware_image_authentication)` -/
def auth_hdr_size : ℕ := 32

def monotonic_count_size : ℕ := 8

/-- `offsetof(struct win_certificate_uefi_guid, cert_data)` -/
def cert_data_offset : ℕ := 24

inductive Access where
  | read (offset size : ℕ)
  | set_image (image_binary image_binary_size : ℕ)
deriving DecidableEq, Repr

def Access.Inside (size : ℕ) : Access → Prop
  | .read offset n => offset+n ≤ size
  | .set_image image_binary n => image_binary+n ≤ size

structure Result where
  ret : Status
  accesses : List Access
deriving DecidableEq, Repr

def Result.Inside (size : ℕ) (r : Result) : Prop := ∀ a ∈ r.accesses, a.Inside size

def returns (ret : Status) : Result := ⟨ret,[]⟩

def touching (accesses : List Access) (r : Result) : Result := ⟨r.ret,accesses ++ r.accesses⟩

def behind (p n : ℕ) : ℕ := (p+n)%2^64

def get (capsule : ℕ → UInt8) (p n : ℕ) : ℕ := field (fun i => capsule (i%2^64)) p n

def guid (capsule : ℕ → UInt8) (p : ℕ) : List UInt8 := load (fun i => capsule (i%2^64)) p 16

def header_size (capsule : ℕ → UInt8) : ℕ := get capsule 16 4
def flags (capsule : ℕ → UInt8) : ℕ := get capsule 20 4
def capsule_image_size (capsule : ℕ → UInt8) : ℕ := get capsule 24 4

structure ImageDescriptor where
  image_type_id : List UInt8
  image_index : ℕ
  hardware_instance : ℕ

/-- A driver with its descriptors, if `get_image_info` gives them. -/
abbrev Handle := Option (List ImageDescriptor)

def matching (image_type : List UInt8) (image_index inst : ℕ) (desc : ImageDescriptor) : Bool :=
  desc.image_type_id = image_type ∧ desc.image_index = image_index
    ∧ (inst = 0 ∨ desc.hardware_instance = 0 ∨ desc.hardware_instance = inst)

/-- `efi_fmp_find`, by the number of the driver. -/
def efi_fmp_find (handles : List Handle) (image_type : List UInt8) (image_index inst : ℕ) : Option ℕ :=
  handles.findIdx? fun handle => (handle.getD []).any (matching image_type image_index inst)

/-- The configuration, the identifiers and what the called functions return; those that are
    called for an item are numbered by it. -/
structure Platform where
  EFI_CAPSULE_AUTHENTICATE : Bool
  FWU_MULTI_BANK_UPDATE : Bool
  fwu_guid_os_request_fw_revert : List UInt8
  fwu_guid_os_request_fw_accept : List UInt8
  efi_guid_firmware_management_capsule_id : List UInt8
  fwu_empty_capsule_checks_pass : Bool
  fwu_update_checks_pass : Bool
  fwu_plat_get_update_index : ℤ
  fwu_revert_boot_index : ℤ
  fwu_get_active_index : ℤ
  fwu_accept_os_image : ℤ
  fwu_state_machine_updates : ℤ
  efi_locate_handle_buffer : Option (List Handle)
  set_image : ℕ → ℕ → Status
  fwu_accept_image : ℕ → ℤ
  fwu_clear_accept_image : ℕ → ℤ

section
variable (p : Platform) (capsule : ℕ → UInt8)

def fwu_to_efi_error (err : ℤ) : Status :=
  if err = 0 then .EFI_SUCCESS
  else if err = - ERANGE ∨ err = - EIO then .EFI_DEVICE_ERROR
  else if err = - EINVAL then .EFI_INVALID_PARAMETER
  else if err = - ENODEV then .EFI_NOT_FOUND
  else .EFI_OUT_OF_RESOURCES

def fwu_empty_capsule : Bool :=
  guid capsule 0 = p.fwu_guid_os_request_fw_revert ∨ guid capsule 0 = p.fwu_guid_os_request_fw_accept

/-- `fwu_empty_capsule_process`; `fwu_accept_image` reads the GUID behind the header. -/
def fwu_empty_capsule_process : Result :=
  touching [.read 0 16] <|
  if guid capsule 0 = p.fwu_guid_os_request_fw_revert then returns (fwu_to_efi_error p.fwu_revert_boot_index)
  else if guid capsule 0 = p.fwu_guid_os_request_fw_accept then
    touching [.read 16 4] <|
    if fwu_to_efi_error p.fwu_get_active_index ≠ .EFI_SUCCESS then returns (fwu_to_efi_error p.fwu_get_active_index)
    else
      touching [.read (header_size capsule) 16] <|
      if p.fwu_state_machine_updates < 0 then returns .EFI_DEVICE_ERROR
      else returns (fwu_to_efi_error p.fwu_accept_os_image)
  else returns .EFI_INVALID_PARAMETER

/-- The length in the certificate of an authentication header. -/
def dwLength (auth_hdr : ℕ) : ℕ := get capsule (behind auth_hdr 8) 4

/-- `efi_remove_auth_hdr`: the image and its size, with the accesses. -/
def efi_remove_auth_hdr (image image_size : ℕ) : Result × ℕ × ℕ :=
  if image_size < auth_hdr_size then (returns .EFI_INVALID_PARAMETER,image,image_size)
  else if dwLength capsule image ≤ cert_data_offset then
    (touching [.read (behind image 8) 4] (returns .EFI_INVALID_PARAMETER),image,image_size)
  else
    (touching [.read (behind image 8) 4] (returns .EFI_SUCCESS),
      behind image (monotonic_count_size+dwLength capsule image),
      (image_size+(2^64-(dwLength capsule image+monotonic_count_size)))%2^64)

def item_entry (item : ℕ) : ℕ := header_size capsule+capsule_header_size+8*item
def item_offset (item : ℕ) : ℕ := get capsule (item_entry capsule item) 8

def image_of (item : ℕ) : ℕ := behind (header_size capsule) (item_offset capsule item)

def update_image_type_id (image : ℕ) : List UInt8 := guid capsule (behind image 4)
def update_image_index (image : ℕ) : ℕ := get capsule (behind image 20) 1
def update_image_size (image : ℕ) : ℕ := get capsule (behind image 24) 4
def update_hardware_instance (image : ℕ) : ℕ := get capsule (behind image 32) 8
def image_capsule_support (image : ℕ) : ℕ := get capsule (behind image 40) 8

def supports_authentication (image : ℕ) : Bool := image_capsule_support capsule image%2 = CAPSULE_SUPPORT_AUTHENTICATION

/-- The accept bit of an image is cleared if the OS accepts it later, and set otherwise. -/
def accept_status (item : ℕ) (fw_accept_os : Bool) : ℤ :=
  if fw_accept_os then p.fwu_clear_accept_image item else p.fwu_accept_image item

/-- The end of a round: the image goes to the driver, then the image is accepted or not. -/
def do_update (fmp item image image_binary image_binary_size : ℕ) (fw_accept_os : Bool) : Result :=
  touching [.read (behind image 20) 1,.set_image image_binary image_binary_size] <|
  if p.set_image fmp item ≠ .EFI_SUCCESS then returns (p.set_image fmp item)
  else if p.FWU_MULTI_BANK_UPDATE then
    touching [.read (behind image 4) 16] <|
    returns (fwu_to_efi_error (accept_status p item fw_accept_os))
  else returns .EFI_SUCCESS

/-- The image behind a header goes to the driver, without its authentication header where
    nothing checks it. -/
def update_image (fmp item image : ℕ) (fw_accept_os : Bool) : Result :=
  let image_binary := behind image image_header_size
  let image_binary_size := update_image_size capsule image
  touching [.read (behind image 24) 4] <|
  if ¬ p.EFI_CAPSULE_AUTHENTICATE ∧ supports_authentication capsule image then
    let removed := efi_remove_auth_hdr capsule image_binary image_binary_size
    touching removed.1.accesses <|
    if removed.1.ret ≠ .EFI_SUCCESS then returns removed.1.ret
    else do_update p fmp item image removed.2.1 removed.2.2 fw_accept_os
  else do_update p fmp item image image_binary image_binary_size fw_accept_os

/-- A round of the loop over the payload from the header of the image on. -/
def find_driver (handles : List Handle) (item image : ℕ) (fw_accept_os : Bool) : Result :=
  touching [.read image 4] <|
  if get capsule image 4 ≠ 3 then returns .EFI_UNSUPPORTED
  else
    touching [.read (behind image 4) 16,.read (behind image 20) 1,.read (behind image 32) 8] <|
    match efi_fmp_find handles (update_image_type_id capsule image) (update_image_index capsule image)
        (update_hardware_instance capsule image) with
    | none => returns .EFI_UNSUPPORTED
    | some fmp =>
      touching [.read (behind image 40) 8] <|
      if p.EFI_CAPSULE_AUTHENTICATE ∧ ¬ supports_authentication capsule image then returns .EFI_SECURITY_VIOLATION
      else update_image p capsule fmp item image fw_accept_os

def update_item (handles : List Handle) (capsule_size : ℕ) (fw_accept_os : Bool) (item : ℕ) : Result :=
  touching [.read (item_entry capsule item) 8] <|
  if capsule_size ≤ (item_offset capsule item+image_header_size)%2^64 then returns .EFI_INVALID_PARAMETER
  else find_driver p capsule handles item (image_of capsule item) fw_accept_os

/-- The loop over the payload, with the number of items that are left. -/
def payload (handles : List Handle) (capsule_size : ℕ) (fw_accept_os : Bool) : ℕ → ℕ → Result
  | _, 0 => returns .EFI_SUCCESS
  | item, left+1 =>
    let r := update_item p capsule handles capsule_size fw_accept_os item
    if r.ret ≠ .EFI_SUCCESS then r
    else touching r.accesses (payload handles capsule_size fw_accept_os (item+1) left)

def embedded_driver_count : ℕ := get capsule (header_size capsule+4) 2
def payload_item_count : ℕ := get capsule (header_size capsule+6) 2

/-- `efi_capsule_update_firmware` from the header behind that of the capsule on. -/
def update_payload (fw_accept_os : Bool) : Result :=
  touching [.read (header_size capsule) 4] <|
  if get capsule (header_size capsule) 4 ≠ 1 then returns .EFI_UNSUPPORTED
  else
    match p.efi_locate_handle_buffer with
    | none => returns .EFI_UNSUPPORTED
    | some handles =>
      touching [.read (header_size capsule+4) 2,.read (header_size capsule+6) 2] <|
      payload p capsule handles (capsule_image_size capsule-header_size capsule) fw_accept_os
        (embedded_driver_count capsule) (payload_item_count capsule)

/-- `efi_capsule_update_firmware` from the identifier of the capsule on. -/
def update_checked (fw_accept_os : Bool) : Result :=
  touching [.read 0 16] <|
  if guid capsule 0 ≠ p.efi_guid_firmware_management_capsule_id then returns .EFI_UNSUPPORTED
  else
    touching [.read 16 4] <|
    if header_size capsule < capsule_header_size then returns .EFI_INVALID_PARAMETER
    else
      touching [.read 24 4] <|
      if capsule_image_size capsule ≤ header_size capsule then returns .EFI_INVALID_PARAMETER
      else update_payload p capsule fw_accept_os

def efi_capsule_update_firmware : Result :=
  if p.FWU_MULTI_BANK_UPDATE then
    touching [.read 0 16] <|
    if fwu_empty_capsule p capsule then
      if p.fwu_empty_capsule_checks_pass then fwu_empty_capsule_process p capsule
      else returns .EFI_INVALID_PARAMETER
    else if ¬ p.fwu_update_checks_pass then returns .EFI_INVALID_PARAMETER
    else if p.fwu_plat_get_update_index < 0 then returns .EFI_DEVICE_ERROR
    else touching [.read 20 4] (update_checked p capsule (flags capsule/FW_ACCEPT_OS%2 = 1))
  else update_checked p capsule false
end

/-- The functions and the data that `efi_capsule_authenticate` checks a signature with. -/
structure Crypto where
  Message : Type
  Store : Type
  efi_guid_cert_type_pkcs7 : List UInt8
  calloc : Bool
  efi_parse_pkcs7_header : ℕ → ℕ → Option Message
  efi_build_signature_store : Option Store
  efi_signature_verify : List ImageRegion → Message → Store → Bool

/-- What is given to `efi_capsule_authenticate`, and where its copy of the counter is. Memory
    does not reach the end of the address space. -/
structure Input where
  bytes : ℕ → UInt8
  address : ℕ
  size : ℕ
  monotonic_count : ℕ
  fits : address+size < 2^64
  count_fits : monotonic_count+monotonic_count_size < 2^64

def region_add (regs : List ImageRegion) (start stop : ℕ) : List ImageRegion :=
  (efi_image_region_add 2 regs start stop true).2

/-- The regions that are digested, for an image with its size. -/
def digested (capsule : Input) (image image_size : ℕ) : List ImageRegion :=
  region_add (region_add [] (behind capsule.address image) (behind (behind capsule.address image) image_size))
    capsule.monotonic_count (capsule.monotonic_count+monotonic_count_size)

/-- `efi_capsule_authenticate`: the status, the image with its size, and what was digested. -/
def efi_capsule_authenticate (c : Crypto) (capsule : Input) : Status × ℕ × ℕ × List ImageRegion :=
  if capsule.size = 0 then (.EFI_SECURITY_VIOLATION,0,0,[])
  else
    match efi_remove_auth_hdr capsule.bytes 0 capsule.size with
    | (removed,image,image_size) =>
      if removed.ret ≠ .EFI_SUCCESS then (.EFI_SECURITY_VIOLATION,image,image_size,[])
      else if guid capsule.bytes 16 ≠ c.efi_guid_cert_type_pkcs7 then (.EFI_SECURITY_VIOLATION,image,image_size,[])
      else if ¬ c.calloc then (.EFI_SECURITY_VIOLATION,image,image_size,[])
      else
        let regs := digested capsule image image_size
        match c.efi_parse_pkcs7_header auth_hdr_size (dwLength capsule.bytes 0-cert_data_offset),
            c.efi_build_signature_store with
        | some capsule_sig, some truststore =>
          if c.efi_signature_verify regs capsule_sig truststore then (.EFI_SUCCESS,image,image_size,regs)
          else (.EFI_SECURITY_VIOLATION,image,image_size,regs)
        | _, _ => (.EFI_SECURITY_VIOLATION,image,image_size,regs)

@[simp] theorem touching_ret (accesses : List Access) (r : Result) : (touching accesses r).ret = r.ret := rfl

@[simp] theorem returns_ret (ret : Status) : (returns ret).ret = ret := rfl

@[simp] theorem touching_accesses (accesses : List Access) (r : Result) :
    (touching accesses r).accesses = accesses ++ r.accesses := rfl

@[simp] theorem returns_accesses (ret : Status) : (returns ret).accesses = [] := rfl

@[simp] theorem returns_inside (size : ℕ) (ret : Status) : (returns ret).Inside size := by
  intro a touched
  cases touched

@[simp] theorem touching_inside {size : ℕ} {accesses : List Access} {r : Result} :
    (touching accesses r).Inside size ↔ (∀ a ∈ accesses, a.Inside size) ∧ r.Inside size := by
  simp only [Result.Inside,touching,forall_mem_append]

@[simp] theorem read_inside (size offset n : ℕ) : (Access.read offset n).Inside size ↔ offset+n ≤ size := Iff.rfl

@[simp] theorem set_image_inside (size image_binary n : ℕ) :
    (Access.set_image image_binary n).Inside size ↔ image_binary+n ≤ size := Iff.rfl

/-! ## When an item stays inside -/

section
variable (p : Platform) (capsule : ℕ → UInt8) (handles : List Handle)

def OffsetPasses (item : ℕ) : Prop :=
  (item_offset capsule item+image_header_size)%2^64 < capsule_image_size capsule-header_size capsule

/-- An image goes to a driver, unless its authentication header cannot be taken off. -/
structure Updates (image : ℕ) : Prop where
  version : get capsule image 4 = 3
  driver : efi_fmp_find handles (update_image_type_id capsule image) (update_image_index capsule image)
    (update_hardware_instance capsule image) ≠ none
  signed : p.EFI_CAPSULE_AUTHENTICATE = true → supports_authentication capsule image = true

def Stripped (image : ℕ) : Prop := p.EFI_CAPSULE_AUTHENTICATE = false ∧ supports_authentication capsule image = true

/-- The header of an image does not start in front of the capsule. -/
def HeaderInside (item : ℕ) : Prop :=
  item_offset capsule item+image_header_size < 2^64 ∨ 2^64 ≤ header_size capsule+item_offset capsule item

/-- An image of this size, with an authentication header in front. -/
def SignedInside (image n size : ℕ) : Prop :=
  auth_hdr_size ≤ n → image+12 ≤ size ∧
    (cert_data_offset < dwLength capsule image → monotonic_count_size+dwLength capsule image ≤ n ∧ image+n ≤ size)

structure BinaryInside (image : ℕ) : Prop where
  plain : ¬ Stripped p capsule image → image+image_header_size+update_image_size capsule image ≤ capsule_image_size capsule
  stripped : Stripped p capsule image →
    SignedInside capsule (image+image_header_size) (update_image_size capsule image) (capsule_image_size capsule)

/-- What the fields of an item must be for all its parts to be inside the capsule. -/
structure ItemInside (item : ℕ) : Prop where
  entry : item_entry capsule item+8 ≤ capsule_image_size capsule
  header : OffsetPasses capsule item → HeaderInside capsule item
  binary : OffsetPasses capsule item → Updates p capsule handles (image_of capsule item) →
    BinaryInside p capsule (image_of capsule item)
end

theorem get_lt (capsule : ℕ → UInt8) (q n : ℕ) : get capsule q n < 256^n := field_lt _ _ _

theorem dwLength_lt (capsule : ℕ → UInt8) (image : ℕ) : dwLength capsule image < 2^32 := get_lt _ _ _

theorem behind_small {q n : ℕ} (small : q+n < 2^64) : behind q n = q+n := Nat.mod_eq_of_lt small

theorem removed_inside_iff {capsule : ℕ → UInt8} {image n size : ℕ} (front : image ≤ size) (size_fits : size < 2^32)
    (n_fits : n < 2^32) :
    ((efi_remove_auth_hdr capsule image n).1.Inside size ∧
      ((efi_remove_auth_hdr capsule image n).1.ret = .EFI_SUCCESS →
        (efi_remove_auth_hdr capsule image n).2.1+(efi_remove_auth_hdr capsule image n).2.2 ≤ size))
      ↔ SignedInside capsule image n size := by
  have dw_fits := dwLength_lt capsule image
  have length_at : behind image 8 = image+8 := behind_small (by omega)
  have image_at : behind image (monotonic_count_size+dwLength capsule image) = image+(8+dwLength capsule image) :=
    behind_small (by unfold monotonic_count_size; omega)
  unfold efi_remove_auth_hdr SignedInside
  by_cases short : n < auth_hdr_size
  · simp [short]
  by_cases empty : dwLength capsule image ≤ cert_data_offset
  · have not_longer : ¬ cert_data_offset < dwLength capsule image := by omega
    simp [short,empty,not_longer,length_at,not_lt.1 short]
  have longer : cert_data_offset < dwLength capsule image := by omega
  simp only [short,empty,longer,if_false,touching_inside,returns_inside,forall_mem_singleton,read_inside,
    touching_ret,returns_ret,length_at,image_at,and_true,forall_const,not_lt.1 short]
  unfold auth_hdr_size at short
  unfold cert_data_offset at longer
  unfold monotonic_count_size
  by_cases fits : 8+dwLength capsule image ≤ n
  · have size_is : (n+(2^64-(dwLength capsule image+8)))%2^64 = n-(8+dwLength capsule image) := by omega
    rw [size_is]
    omega
  · have size_is : (n+(2^64-(dwLength capsule image+8)))%2^64 = n+(2^64-(dwLength capsule image+8)) := by omega
    rw [size_is]
    omega

section
variable {p : Platform} {capsule : ℕ → UInt8} {handles : List Handle} {fw_accept_os : Bool}

theorem header_field {image k n : ℕ} (inside : image+image_header_size ≤ capsule_image_size capsule)
    (part : k+n ≤ image_header_size) : behind image k+n ≤ capsule_image_size capsule := by
  have size_fits : capsule_image_size capsule < 2^32 := get_lt _ _ _
  rw [behind_small (by omega)]
  omega

theorem do_update_inside_iff {image : ℕ} (fmp item image_binary n : ℕ)
    (inside : image+image_header_size ≤ capsule_image_size capsule) :
    (do_update p fmp item image image_binary n fw_accept_os).Inside (capsule_image_size capsule)
      ↔ image_binary+n ≤ capsule_image_size capsule := by
  have index_inside : behind image 20+1 ≤ capsule_image_size capsule := header_field inside (by decide)
  have type_inside : behind image 4+16 ≤ capsule_image_size capsule := header_field inside (by decide)
  unfold do_update
  simp only [touching_inside,forall_mem_cons,read_inside,set_image_inside,index_inside,true_and,not_mem_nil,
    false_implies,implies_true,and_true,and_iff_left_iff_imp]
  intro _
  split_ifs <;> simp [type_inside]

theorem update_image_inside_iff {image : ℕ} (fmp item : ℕ) (inside : image+image_header_size ≤ capsule_image_size capsule) :
    (update_image p capsule fmp item image fw_accept_os).Inside (capsule_image_size capsule) ↔ BinaryInside p capsule image := by
  have size_fits : capsule_image_size capsule < 2^32 := get_lt _ _ _
  have n_fits : update_image_size capsule image < 2^32 := get_lt _ _ _
  have binary_at : behind image image_header_size = image+image_header_size := behind_small (by omega)
  have size_inside : behind image 24+4 ≤ capsule_image_size capsule := header_field inside (by decide)
  unfold update_image
  simp only [touching_inside,forall_mem_singleton,read_inside,size_inside,true_and,binary_at]
  by_cases stripped : Stripped p capsule image
  · have condition : ¬ p.EFI_CAPSULE_AUTHENTICATE = true ∧ supports_authentication capsule image = true :=
      ⟨by simp [stripped.1],stripped.2⟩
    have same : BinaryInside p capsule image ↔ SignedInside capsule (image+image_header_size)
        (update_image_size capsule image) (capsule_image_size capsule) :=
      ⟨fun fits => fits.stripped stripped,fun fits => ⟨fun plain => absurd stripped plain,fun _ => fits⟩⟩
    rw [if_pos condition,same,← removed_inside_iff inside size_fits n_fits,touching_inside]
    apply and_congr Iff.rfl
    split_ifs with failed
    · simp [failed]
    · rw [do_update_inside_iff fmp item _ _ inside]
      simp [not_not.1 failed]
  · have condition : ¬ (¬ p.EFI_CAPSULE_AUTHENTICATE = true ∧ supports_authentication capsule image = true) :=
      fun is => stripped ⟨by simpa using is.1,is.2⟩
    rw [if_neg condition,do_update_inside_iff fmp item _ _ inside]
    exact ⟨fun fits => ⟨fun _ => fits,fun is => absurd is stripped⟩,fun fits => fits.plain stripped⟩

theorem find_driver_inside_iff {image : ℕ} (item : ℕ) (inside : image+image_header_size ≤ capsule_image_size capsule) :
    (find_driver p capsule handles item image fw_accept_os).Inside (capsule_image_size capsule)
      ↔ (Updates p capsule handles image → BinaryInside p capsule image) := by
  set size := capsule_image_size capsule
  have version_inside : image+4 ≤ size := le_trans (by unfold image_header_size; omega) inside
  have type_inside : behind image 4+16 ≤ size := header_field inside (by decide)
  have index_inside : behind image 20+1 ≤ size := header_field inside (by decide)
  have instance_inside : behind image 32+8 ≤ size := header_field inside (by decide)
  have support_inside : behind image 40+8 ≤ size := header_field inside (by decide)
  unfold find_driver
  simp only [touching_inside,forall_mem_singleton,read_inside,version_inside,true_and]
  by_cases version : get capsule image 4 = 3
  · rw [if_neg (not_not.2 version)]
    simp only [touching_inside,forall_mem_cons,read_inside,type_inside,index_inside,instance_inside,not_mem_nil,
      false_implies,implies_true,true_and]
    split
    · next missing =>
      have stops : ¬ Updates p capsule handles image := fun updates => updates.driver missing
      simp [stops]
    next fmp found =>
    simp only [touching_inside,forall_mem_singleton,read_inside,support_inside,true_and]
    split_ifs with unsigned
    · have stops : ¬ Updates p capsule handles image := fun updates => unsigned.2 (updates.signed unsigned.1)
      simp [stops]
    · have updates : Updates p capsule handles image :=
        ⟨version,by simp [found],fun on => by simpa [on] using unsigned⟩
      rw [update_image_inside_iff fmp item inside]
      simp [updates]
  · have stops : ¬ Updates p capsule handles image := fun updates => version updates.version
    simp [version,stops]

theorem header_inside_iff {item : ℕ} (room : capsule_header_size ≤ header_size capsule)
    (front : header_size capsule < capsule_image_size capsule) (passes : OffsetPasses capsule item) :
    (HeaderInside capsule item → image_of capsule item+image_header_size ≤ capsule_image_size capsule) ∧
      (image_of capsule item+4 ≤ capsule_image_size capsule → HeaderInside capsule item) := by
  have size_fits : capsule_image_size capsule < 2^32 := get_lt _ _ _
  have offset_fits : item_offset capsule item < 2^64 := get_lt _ _ _
  unfold OffsetPasses image_header_size at passes
  unfold HeaderInside image_of behind image_header_size
  omega

theorem item_inside_iff {item : ℕ} (room : capsule_header_size ≤ header_size capsule)
    (front : header_size capsule < capsule_image_size capsule) :
    (update_item p capsule handles (capsule_image_size capsule-header_size capsule) fw_accept_os item).Inside
      (capsule_image_size capsule) ↔ ItemInside p capsule handles item := by
  have parts : ItemInside p capsule handles item ↔ item_entry capsule item+8 ≤ capsule_image_size capsule ∧
      (OffsetPasses capsule item → HeaderInside capsule item ∧
        (Updates p capsule handles (image_of capsule item) → BinaryInside p capsule (image_of capsule item))) :=
    ⟨fun inside => ⟨inside.entry,fun passes => ⟨inside.header passes,inside.binary passes⟩⟩,
      fun inside => ⟨inside.1,fun passes => (inside.2 passes).1,fun passes => (inside.2 passes).2⟩⟩
  rw [parts]
  unfold update_item
  simp only [touching_inside,forall_mem_singleton,read_inside]
  apply and_congr Iff.rfl
  split_ifs with refused
  · have fails : ¬ OffsetPasses capsule item := not_lt.2 refused
    simp [fails]
  have passes : OffsetPasses capsule item := not_le.1 refused
  obtain ⟨inside,starts⟩ := header_inside_iff room front passes
  simp only [passes,true_implies]
  constructor
  · intro all
    have header : HeaderInside capsule item := by
      apply starts
      unfold find_driver at all
      simp only [touching_inside,forall_mem_singleton,read_inside] at all
      exact all.1
    exact ⟨header,(find_driver_inside_iff item (inside header)).1 all⟩
  · rintro ⟨header,binary⟩
    exact (find_driver_inside_iff item (inside header)).2 binary
end

/-! ## The items that are looked at -/

section
variable (p : Platform) (capsule : ℕ → UInt8) (handles : List Handle) (fw_accept_os : Bool)

structure Completes (item : ℕ) : Prop where
  passes : OffsetPasses capsule item
  updates : Updates p capsule handles (image_of capsule item)
  removes : Stripped p capsule (image_of capsule item) →
    auth_hdr_size ≤ update_image_size capsule (image_of capsule item) ∧
      cert_data_offset < dwLength capsule (behind (image_of capsule item) image_header_size)
  taken : ∀ fmp, efi_fmp_find handles (update_image_type_id capsule (image_of capsule item))
    (update_image_index capsule (image_of capsule item)) (update_hardware_instance capsule (image_of capsule item)) = some fmp →
    p.set_image fmp item = .EFI_SUCCESS
  accepted : p.FWU_MULTI_BANK_UPDATE = true → accept_status p item fw_accept_os = 0

/-- The items of the payload are looked at up to the first that does not complete, and all
    that are looked at are inside. -/
def PayloadInside (first count : ℕ) : Prop :=
  ∀ k < count, (∀ earlier < k, Completes p capsule handles fw_accept_os (first+earlier)) →
    ItemInside p capsule handles (first+k)

theorem fwu_to_efi_error_success {err : ℤ} : fwu_to_efi_error err = .EFI_SUCCESS ↔ err = 0 := by
  unfold fwu_to_efi_error
  split_ifs <;> simp_all

theorem do_update_success {fmp item image image_binary n : ℕ} :
    (do_update p fmp item image image_binary n fw_accept_os).ret = .EFI_SUCCESS ↔ p.set_image fmp item = .EFI_SUCCESS ∧
      (p.FWU_MULTI_BANK_UPDATE = true → accept_status p item fw_accept_os = 0) := by
  unfold do_update
  by_cases taken : p.set_image fmp item = .EFI_SUCCESS
  · by_cases fwu : p.FWU_MULTI_BANK_UPDATE = true
    · simp [taken,fwu,fwu_to_efi_error_success]
    · simp [taken,fwu]
  · simp [taken]

theorem removed_success {image n : ℕ} : (efi_remove_auth_hdr capsule image n).1.ret = .EFI_SUCCESS ↔
    auth_hdr_size ≤ n ∧ cert_data_offset < dwLength capsule image := by
  unfold efi_remove_auth_hdr
  split_ifs with short empty
  · simp [not_le.2 short]
  · simp [not_lt.2 empty]
  · simp [not_lt.1 short,not_le.1 empty]

theorem update_image_success {fmp item image : ℕ} :
    (update_image p capsule fmp item image fw_accept_os).ret = .EFI_SUCCESS ↔
      (Stripped p capsule image → auth_hdr_size ≤ update_image_size capsule image ∧
        cert_data_offset < dwLength capsule (behind image image_header_size)) ∧
      p.set_image fmp item = .EFI_SUCCESS ∧ (p.FWU_MULTI_BANK_UPDATE = true → accept_status p item fw_accept_os = 0) := by
  unfold update_image
  simp only [touching_ret]
  by_cases stripped : Stripped p capsule image
  · have condition : ¬ p.EFI_CAPSULE_AUTHENTICATE = true ∧ supports_authentication capsule image = true :=
      ⟨by simp [stripped.1],stripped.2⟩
    rw [if_pos condition,touching_ret]
    simp only [stripped,true_implies,← removed_success]
    split_ifs with failed
    · simp [failed]
    · rw [do_update_success]
      simp [not_not.1 failed]
  · have condition : ¬ (¬ p.EFI_CAPSULE_AUTHENTICATE = true ∧ supports_authentication capsule image = true) :=
      fun is => stripped ⟨by simpa using is.1,is.2⟩
    rw [if_neg condition,do_update_success]
    simp [stripped]

theorem completes_iff {item : ℕ} :
    (update_item p capsule handles (capsule_image_size capsule-header_size capsule) fw_accept_os item).ret = .EFI_SUCCESS ↔
      Completes p capsule handles fw_accept_os item := by
  unfold update_item
  rw [touching_ret]
  split_ifs with refused
  · exact ⟨fun success => by simp at success,fun done => absurd done.passes (not_lt.2 refused)⟩
  have passes : OffsetPasses capsule item := not_le.1 refused
  unfold find_driver
  rw [touching_ret]
  by_cases version : get capsule (image_of capsule item) 4 ≠ 3
  · rw [if_pos version]
    exact ⟨fun success => by simp at success,fun done => absurd done.updates.version version⟩
  rw [if_neg version,touching_ret]
  split
  · next missing => exact ⟨fun success => by simp at success,fun done => absurd missing done.updates.driver⟩
  next fmp found =>
  rw [touching_ret]
  split_ifs with unsigned
  · exact ⟨fun success => by simp at success,fun done => absurd (done.updates.signed unsigned.1) unsigned.2⟩
  rw [update_image_success]
  constructor
  · rintro ⟨removes,taken,accepted⟩
    refine ⟨passes,⟨not_not.1 version,by simp [found],fun on => by simpa [on] using unsigned⟩,removes,?_,accepted⟩
    intro other is
    rw [found] at is
    obtain rfl := Option.some.inj is
    exact taken
  · intro done
    exact ⟨done.removes,done.taken fmp found,done.accepted⟩

theorem payload_inside_succ (item left : ℕ) : PayloadInside p capsule handles fw_accept_os item (left+1) ↔
    ItemInside p capsule handles item ∧
      (Completes p capsule handles fw_accept_os item → PayloadInside p capsule handles fw_accept_os (item+1) left) := by
  have next (k : ℕ) : item+1+k = item+(k+1) := by omega
  constructor
  · intro all
    refine ⟨by simpa using all 0 (by omega) (by omega),fun first k less earlier => ?_⟩
    rw [next]
    apply all (k+1) (by omega)
    intro j lower
    cases j with
    | zero => exact first
    | succ j =>
      rw [← next]
      exact earlier j (by omega)
  · rintro ⟨first,rest⟩ k less earlier
    cases k with
    | zero => exact first
    | succ k =>
      rw [← next]
      apply rest (earlier 0 (by omega)) k (by omega)
      intro j lower
      rw [next]
      exact earlier (j+1) (by omega)

theorem payload_inside_iff (room : capsule_header_size ≤ header_size capsule)
    (front : header_size capsule < capsule_image_size capsule) (item left : ℕ) :
    (payload p capsule handles (capsule_image_size capsule-header_size capsule) fw_accept_os item left).Inside
      (capsule_image_size capsule) ↔ PayloadInside p capsule handles fw_accept_os item left := by
  induction left generalizing item with
  | zero =>
    rw [payload]
    simp [PayloadInside]
  | succ left following =>
    rw [payload_inside_succ,payload,← @item_inside_iff p capsule handles fw_accept_os item room front,← completes_iff]
    split_ifs with failed
    · simp [failed]
    · simp only [touching_inside,following,not_not.1 failed,true_implies]
      rfl
end

/-! ## When a capsule stays inside -/

section
variable (p : Platform) (capsule : ℕ → UInt8)

/-- The identifier of the capsule is that of firmware updates. -/
def IsFirmware : Prop := guid capsule 0 = p.efi_guid_firmware_management_capsule_id

/-- The check of the size of the header lets the capsule pass. -/
structure SizePasses : Prop where
  room : capsule_header_size ≤ header_size capsule
  front : header_size capsule < capsule_image_size capsule

/-- What the fields must be from the identifier of the capsule on. -/
structure FirmwareInside (fw_accept_os : Bool) : Prop where
  identifier : 16 ≤ capsule_image_size capsule
  size_of_header : IsFirmware p capsule → 20 ≤ capsule_image_size capsule
  size_of_capsule : IsFirmware p capsule → capsule_header_size ≤ header_size capsule → 28 ≤ capsule_image_size capsule
  version : IsFirmware p capsule → SizePasses capsule → header_size capsule+4 ≤ capsule_image_size capsule
  items : IsFirmware p capsule → SizePasses capsule → get capsule (header_size capsule) 4 = 1 →
    ∀ handles, p.efi_locate_handle_buffer = some handles →
      header_size capsule+capsule_header_size ≤ capsule_image_size capsule ∧
        PayloadInside p capsule handles fw_accept_os (embedded_driver_count capsule) (payload_item_count capsule)

structure EmptyInside : Prop where
  size_of_header : guid capsule 0 ≠ p.fwu_guid_os_request_fw_revert → 20 ≤ capsule_image_size capsule
  image_guid : guid capsule 0 ≠ p.fwu_guid_os_request_fw_revert → p.fwu_get_active_index = 0 →
    header_size capsule+16 ≤ capsule_image_size capsule

structure CapsuleInside : Prop where
  single_bank : p.FWU_MULTI_BANK_UPDATE = false → FirmwareInside p capsule false
  identifier : p.FWU_MULTI_BANK_UPDATE = true → 16 ≤ capsule_image_size capsule
  empty : p.FWU_MULTI_BANK_UPDATE = true → fwu_empty_capsule p capsule = true → p.fwu_empty_capsule_checks_pass = true →
    EmptyInside p capsule
  flags : p.FWU_MULTI_BANK_UPDATE = true → fwu_empty_capsule p capsule = false → p.fwu_update_checks_pass = true →
    0 ≤ p.fwu_plat_get_update_index → 24 ≤ capsule_image_size capsule
  multi_bank : p.FWU_MULTI_BANK_UPDATE = true → fwu_empty_capsule p capsule = false → p.fwu_update_checks_pass = true →
    0 ≤ p.fwu_plat_get_update_index → FirmwareInside p capsule (EfiCapsule.flags capsule/FW_ACCEPT_OS%2 = 1)

theorem update_payload_inside_iff (passes : SizePasses capsule) (fw_accept_os : Bool) :
    (update_payload p capsule fw_accept_os).Inside (capsule_image_size capsule) ↔
      header_size capsule+4 ≤ capsule_image_size capsule ∧ (get capsule (header_size capsule) 4 = 1 →
        ∀ handles, p.efi_locate_handle_buffer = some handles →
          header_size capsule+capsule_header_size ≤ capsule_image_size capsule ∧
            PayloadInside p capsule handles fw_accept_os (embedded_driver_count capsule) (payload_item_count capsule)) := by
  unfold update_payload
  rw [touching_inside,forall_mem_singleton,read_inside]
  apply and_congr Iff.rfl
  by_cases version : get capsule (header_size capsule) 4 = 1
  · rw [if_neg (not_not.2 version)]
    cases p.efi_locate_handle_buffer with
    | none => simp
    | some handles =>
      have counts : header_size capsule+4+2 ≤ capsule_image_size capsule ∧ header_size capsule+6+2 ≤ capsule_image_size capsule
          ↔ header_size capsule+capsule_header_size ≤ capsule_image_size capsule := by
        unfold capsule_header_size
        omega
      simp only [touching_inside,forall_mem_cons,read_inside,not_mem_nil,false_implies,implies_true,and_true,
        payload_inside_iff p capsule handles fw_accept_os passes.room passes.front,counts,version,true_implies,
        Option.some.injEq,forall_eq']
  · simp [version]

theorem firmware_inside_iff (fw_accept_os : Bool) :
    (update_checked p capsule fw_accept_os).Inside (capsule_image_size capsule) ↔ FirmwareInside p capsule fw_accept_os := by
  unfold update_checked
  rw [touching_inside,forall_mem_singleton,read_inside,zero_add]
  by_cases firmware : IsFirmware p capsule
  · have is_firmware : ¬ guid capsule 0 ≠ p.efi_guid_firmware_management_capsule_id := not_not.2 firmware
    rw [if_neg is_firmware,touching_inside,forall_mem_singleton,read_inside]
    by_cases room : capsule_header_size ≤ header_size capsule
    · rw [if_neg (not_lt.2 room),touching_inside,forall_mem_singleton,read_inside]
      by_cases front : header_size capsule < capsule_image_size capsule
      · rw [if_neg (not_le.2 front),update_payload_inside_iff p capsule ⟨room,front⟩]
        constructor
        · rintro ⟨first,second,third,fourth,items⟩
          exact ⟨first,fun _ => second,fun _ _ => third,fun _ _ => fourth,fun _ _ => items⟩
        · intro inside
          exact ⟨inside.identifier,inside.size_of_header firmware,inside.size_of_capsule firmware room,
            inside.version firmware ⟨room,front⟩,inside.items firmware ⟨room,front⟩⟩
      · rw [if_pos (not_lt.1 front)]
        constructor
        · rintro ⟨first,second,third,_⟩
          exact ⟨first,fun _ => second,fun _ _ => third,fun _ passes => absurd passes.front front,
            fun _ passes => absurd passes.front front⟩
        · intro inside
          exact ⟨inside.identifier,inside.size_of_header firmware,inside.size_of_capsule firmware room,returns_inside _ _⟩
    · rw [if_pos (not_le.1 room)]
      constructor
      · rintro ⟨first,second,_⟩
        exact ⟨first,fun _ => second,fun _ is => absurd is room,fun _ passes => absurd passes.room room,
          fun _ passes => absurd passes.room room⟩
      · intro inside
        exact ⟨inside.identifier,inside.size_of_header firmware,returns_inside _ _⟩
  · have other : guid capsule 0 ≠ p.efi_guid_firmware_management_capsule_id := firmware
    rw [if_pos other]
    constructor
    · rintro ⟨first,_⟩
      exact ⟨first,fun is => absurd is firmware,fun is => absurd is firmware,fun is => absurd is firmware,
        fun is => absurd is firmware⟩
    · intro inside
      exact ⟨inside.identifier,returns_inside _ _⟩

theorem empty_inside_iff (is_empty : fwu_empty_capsule p capsule = true) (identifier : 16 ≤ capsule_image_size capsule) :
    (fwu_empty_capsule_process p capsule).Inside (capsule_image_size capsule) ↔ EmptyInside p capsule := by
  unfold fwu_empty_capsule_process
  rw [touching_inside,forall_mem_singleton,read_inside,and_iff_right (by omega)]
  by_cases revert : guid capsule 0 = p.fwu_guid_os_request_fw_revert
  · rw [if_pos revert]
    exact ⟨fun _ => ⟨fun other => absurd revert other,fun other => absurd revert other⟩,fun _ => returns_inside _ _⟩
  have accept : guid capsule 0 = p.fwu_guid_os_request_fw_accept := by
    unfold fwu_empty_capsule at is_empty
    simpa [revert] using is_empty
  rw [if_neg revert,if_pos accept,touching_inside,forall_mem_singleton,read_inside]
  by_cases active : p.fwu_get_active_index = 0
  · rw [if_neg (not_not.2 (fwu_to_efi_error_success.2 active)),touching_inside,forall_mem_singleton,read_inside]
    constructor
    · rintro ⟨size_of_header,image_guid,_⟩
      exact ⟨fun _ => size_of_header,fun _ _ => image_guid⟩
    · intro inside
      refine ⟨inside.size_of_header revert,inside.image_guid revert active,?_⟩
      split_ifs <;> apply returns_inside
  · have fails : fwu_to_efi_error p.fwu_get_active_index ≠ .EFI_SUCCESS := fun is => active (fwu_to_efi_error_success.1 is)
    rw [if_pos fails]
    exact ⟨fun inside => ⟨fun _ => inside.1,fun _ is => absurd is active⟩,
      fun inside => ⟨inside.size_of_header revert,returns_inside _ _⟩⟩

theorem capsule_inside_iff :
    (efi_capsule_update_firmware p capsule).Inside (capsule_image_size capsule) ↔ CapsuleInside p capsule := by
  unfold efi_capsule_update_firmware
  cases fwu : p.FWU_MULTI_BANK_UPDATE with
  | false =>
    rw [if_neg Bool.false_ne_true,firmware_inside_iff]
    exact ⟨fun inside => ⟨fun _ => inside,by simp [fwu],by simp [fwu],by simp [fwu],by simp [fwu]⟩,
      fun inside => inside.single_bank fwu⟩
  | true =>
    rw [if_pos rfl,touching_inside,forall_mem_singleton,read_inside,zero_add]
    cases is_empty : fwu_empty_capsule p capsule with
    | true =>
      rw [if_pos rfl]
      constructor
      · rintro ⟨identifier,rest⟩
        refine ⟨by simp [fwu],fun _ => identifier,fun _ _ checks => ?_,by simp [is_empty],by simp [is_empty]⟩
        rw [if_pos checks] at rest
        exact (empty_inside_iff p capsule is_empty identifier).1 rest
      · intro inside
        refine ⟨inside.identifier fwu,?_⟩
        split_ifs with checks
        · exact (empty_inside_iff p capsule is_empty (inside.identifier fwu)).2 (inside.empty fwu is_empty checks)
        · apply returns_inside
    | false =>
      rw [if_neg Bool.false_ne_true]
      by_cases checks : p.fwu_update_checks_pass = true
      · rw [if_neg (not_not.2 checks)]
        by_cases index : p.fwu_plat_get_update_index < 0
        · rw [if_pos index]
          have fails : ¬ 0 ≤ p.fwu_plat_get_update_index := not_le.2 index
          exact ⟨fun inside => ⟨by simp [fwu],fun _ => inside.1,by simp [is_empty],fun _ _ _ is => absurd is fails,
            fun _ _ _ is => absurd is fails⟩,fun inside => ⟨inside.identifier fwu,returns_inside _ _⟩⟩
        · rw [if_neg index,touching_inside,forall_mem_singleton,read_inside,firmware_inside_iff]
          exact ⟨fun inside => ⟨by simp [fwu],fun _ => inside.1,by simp [is_empty],fun _ _ _ _ => inside.2.1,
            fun _ _ _ _ => inside.2.2⟩,fun inside => ⟨inside.identifier fwu,inside.flags fwu is_empty checks (not_lt.1 index),
              inside.multi_bank fwu is_empty checks (not_lt.1 index)⟩⟩
      · rw [if_pos checks]
        exact ⟨fun inside => ⟨by simp [fwu],fun _ => inside.1,by simp [is_empty],fun _ _ is => absurd is checks,
          fun _ _ is => absurd is checks⟩,fun inside => ⟨inside.identifier fwu,returns_inside _ _⟩⟩
end

/-! ## When an authenticated image is inside -/

section
variable (c : Crypto) (capsule : Input)

/-- The image behind the authentication header and its size, as they are computed. -/
def image_behind : ℕ := behind 0 (monotonic_count_size+dwLength capsule.bytes 0)
def size_behind : ℕ := (capsule.size+(2^64-(dwLength capsule.bytes 0+monotonic_count_size)))%2^64

/-- The header and the signature over what is digested are accepted. -/
structure Verifies : Prop where
  header : auth_hdr_size ≤ capsule.size
  certificate : cert_data_offset < dwLength capsule.bytes 0
  cert_type : guid capsule.bytes 16 = c.efi_guid_cert_type_pkcs7
  allocated : c.calloc = true
  signature : ∃ capsule_sig truststore,
    c.efi_parse_pkcs7_header auth_hdr_size (dwLength capsule.bytes 0-cert_data_offset) = some capsule_sig ∧
    c.efi_build_signature_store = some truststore ∧
    c.efi_signature_verify (digested capsule (image_behind capsule) (size_behind capsule)) capsule_sig truststore = true

/-- What is returned with success is inside what was given and was digested. -/
def AuthenticatedInside (authenticated : Status × ℕ × ℕ × List ImageRegion) : Prop :=
  authenticated.1 = .EFI_SUCCESS → authenticated.2.1+authenticated.2.2.1 ≤ capsule.size ∧
    ⟨capsule.address+authenticated.2.1,authenticated.2.2.1⟩ ∈ authenticated.2.2.2

theorem authenticate_success :
    (efi_capsule_authenticate c capsule).1 = .EFI_SUCCESS → Verifies c capsule ∧ efi_capsule_authenticate c capsule =
      (.EFI_SUCCESS,image_behind capsule,size_behind capsule,digested capsule (image_behind capsule) (size_behind capsule)) := by
  intro success
  unfold efi_capsule_authenticate efi_remove_auth_hdr at success ⊢
  by_cases empty : capsule.size = 0
  · simp [empty] at success
  by_cases short : capsule.size < auth_hdr_size
  · simp [empty,short] at success
  by_cases certificate : dwLength capsule.bytes 0 ≤ cert_data_offset
  · simp [empty,short,certificate] at success
  by_cases cert_type : guid capsule.bytes 16 = c.efi_guid_cert_type_pkcs7
  · by_cases allocated : c.calloc = true
    · simp only [empty,short,certificate,cert_type,allocated,if_false,not_true_eq_false,ne_eq,touching_ret,returns_ret]
        at success ⊢
      split at success
      · next capsule_sig truststore parsed stored =>
        split_ifs at success ⊢ with verified
        exact ⟨⟨not_lt.1 short,not_le.1 certificate,cert_type,allocated,capsule_sig,truststore,parsed,stored,verified⟩,rfl⟩
      · cases success
    · simp [empty,short,certificate,cert_type,allocated] at success
  · simp [empty,short,certificate,cert_type] at success

theorem verifies_success (verifies : Verifies c capsule) : efi_capsule_authenticate c capsule =
    (.EFI_SUCCESS,image_behind capsule,size_behind capsule,digested capsule (image_behind capsule) (size_behind capsule)) := by
  obtain ⟨header,certificate,cert_type,allocated,capsule_sig,truststore,parsed,stored,verified⟩ := verifies
  have filled : ¬ capsule.size = 0 := by unfold auth_hdr_size at header; omega
  unfold efi_capsule_authenticate efi_remove_auth_hdr
  simp only [filled,not_lt.2 header,not_le.2 certificate,cert_type,allocated,parsed,stored,if_false,not_true_eq_false,ne_eq,
    touching_ret,returns_ret]
  exact if_pos verified

theorem digested_image (fits : monotonic_count_size+dwLength capsule.bytes 0 ≤ capsule.size) :
    image_behind capsule+size_behind capsule ≤ capsule.size ∧
      ⟨capsule.address+image_behind capsule,size_behind capsule⟩ ∈
        digested capsule (image_behind capsule) (size_behind capsule) := by
  set len := dwLength capsule.bytes 0
  have memory := capsule.fits
  have dw_fits := dwLength_lt capsule.bytes 0
  unfold monotonic_count_size at fits
  have image_is : image_behind capsule = 8+len := by
    unfold image_behind monotonic_count_size
    rw [behind_small (by omega),zero_add]
  have size_is : size_behind capsule = capsule.size-(8+len) := by
    unfold size_behind monotonic_count_size
    omega
  have start_is : behind capsule.address (8+len) = capsule.address+(8+len) :=
    behind_small (by omega)
  have stop_is : behind (capsule.address+(8+len)) (capsule.size-(8+len))
      = capsule.address+(8+len)+(capsule.size-(8+len)) := behind_small (by omega)
  rw [image_is,size_is]
  refine ⟨by omega,?_⟩
  unfold digested
  rw [start_is,stop_is]
  simp [region_add,efi_image_region_add]

theorem authenticated_inside_iff : AuthenticatedInside capsule (efi_capsule_authenticate c capsule) ↔
    (capsule.size < monotonic_count_size+dwLength capsule.bytes 0 → ¬ Verifies c capsule) := by
  constructor
  · intro inside wraps verifies
    have returned := verifies_success c capsule verifies
    rw [AuthenticatedInside,returned] at inside
    have bound := (inside rfl).1
    have dw_fits := dwLength_lt capsule.bytes 0
    unfold monotonic_count_size at wraps
    simp only [image_behind,size_behind,behind,monotonic_count_size] at bound
    omega
  · intro refused success
    obtain ⟨verifies,returned⟩ := authenticate_success c capsule success
    rw [returned]
    dsimp only
    have fits : monotonic_count_size+dwLength capsule.bytes 0 ≤ capsule.size := by
      by_contra wraps
      exact refused (not_le.1 wraps) verifies
    exact digested_image capsule fits
end

/-! ## Capsules -/

/-- Everything stays inside exactly if the fields of the items that are looked at, and the
    length of the certificate, are those of parts that are inside. -/
theorem capsule_parsed_inside_iff (p : Platform) (capsule : ℕ → UInt8) (c : Crypto) (input : Input) :
    ((efi_capsule_update_firmware p capsule).Inside (capsule_image_size capsule) ↔ CapsuleInside p capsule) ∧
      (AuthenticatedInside input (efi_capsule_authenticate c input) ↔
        (input.size < monotonic_count_size+dwLength input.bytes 0 → ¬ Verifies c input)) :=
  ⟨capsule_inside_iff p capsule,authenticated_inside_iff c input⟩

def firmware_id : List UInt8 := [0xed,0xd5,0xcb,0x6d,0x2d,0xe8,0x44,0x4c,0xbd,0xa1,0x71,0x94,0x19,0x9a,0xd9,0x2a]

def image_type : List UInt8 := List.replicate 16 0x55

/-- A board without authentication, with one driver that takes every image. -/
def board : Platform where
  EFI_CAPSULE_AUTHENTICATE := false
  FWU_MULTI_BANK_UPDATE := false
  fwu_guid_os_request_fw_revert := List.replicate 16 1
  fwu_guid_os_request_fw_accept := List.replicate 16 2
  efi_guid_firmware_management_capsule_id := firmware_id
  fwu_empty_capsule_checks_pass := false
  fwu_update_checks_pass := false
  fwu_plat_get_update_index := 0
  fwu_revert_boot_index := 0
  fwu_get_active_index := 0
  fwu_accept_os_image := 0
  fwu_state_machine_updates := 0
  efi_locate_handle_buffer := some [some [⟨image_type,1,0⟩]]
  set_image := fun _ _ => .EFI_SUCCESS
  fwu_accept_image := fun _ => 0
  fwu_clear_accept_image := fun _ => 0

/-- A capsule of 96 bytes with an image of 4 bytes that says to have 4096. -/
def long_image : List UInt8 :=
  firmware_id ++ little 4 28 ++ little 4 0 ++ little 4 96 ++ little 4 1 ++ little 2 0 ++ little 2 1 ++ little 8 16 ++
    little 4 3 ++ image_type ++ [1,0,0,0] ++ little 4 4096 ++ little 4 0 ++ little 8 0 ++ little 8 0 ++ [1,2,3,4]

/-- The driver is given 4092 bytes behind the capsule. -/
theorem long_image_handed_over : long_image.length = capsule_image_size (fun i => long_image.getD i 0) ∧
    ¬ (efi_capsule_update_firmware board (fun i => long_image.getD i 0)).Inside
      (capsule_image_size (fun i => long_image.getD i 0)) := by
  have size : capsule_image_size (fun i => long_image.getD i 0) = 96 := by decide +kernel
  have handed : Access.set_image 92 4096 ∈ (efi_capsule_update_firmware board (fun i => long_image.getD i 0)).accesses := by
    decide +kernel
  refine ⟨by rw [size]; decide,fun inside => ?_⟩
  have bound := inside _ handed
  rw [size,set_image_inside] at bound
  omega

end UBoot.EfiCapsule
