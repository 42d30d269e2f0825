import UBoot.Buffers

/-!
Portable executables as `lib/efi_loader/efi_image_loader.c` reads them: the headers and
the section table, `efi_check_pe`, and the sizes that a section has in the file and in
memory. The image is memory from its first byte on; the fields of `include/pe.h` stand
at their offsets in it. Sizes have 64 bits, as pointers do.
-/
namespace UBoot.EfiPe
open UBoot.Memory UBoot.Buffers

inductive Status where
  | EFI_SUCCESS
  | EFI_LOAD_ERROR
  | EFI_INVALID_PARAMETER
  | EFI_OUT_OF_RESOURCES
  | EFI_SECURITY_VIOLATION
deriving DecidableEq, Repr

def IMAGE_DOS_SIGNATURE : ℕ := 0x5A4D
def IMAGE_NT_SIGNATURE : ℕ := 0x00004550
def IMAGE_NT_OPTIONAL_HDR32_MAGIC : ℕ := 0x10b
def IMAGE_NT_OPTIONAL_HDR64_MAGIC : ℕ := 0x20b
def IMAGE_DIRECTORY_ENTRY_SECURITY : ℕ := 4
def IMAGE_DIRECTORY_ENTRY_BASERELOC : ℕ := 5

/-- `sizeof(IMAGE_DOS_HEADER)`, `sizeof(IMAGE_NT_HEADERS32)` and
    `sizeof(IMAGE_SECTION_HEADER)`. -/
def dos_header_size : ℕ := 64
def nt_headers32_size : ℕ := 248
def section_header_size : ℕ := 40

/-- `IMAGE_SECTION_HEADER`, the fields that are used. -/
structure ImageSectionHeader where
  VirtualSize : ℕ
  VirtualAddress : ℕ
  SizeOfRawData : ℕ
  PointerToRawData : ℕ
deriving DecidableEq

/-- The optional header of either kind, the fields that are used; `DataDirectory` is the
    offset of the table in the image. -/
structure OptionalHeader where
  ImageBase : ℕ
  SectionAlignment : ℕ
  FileAlignment : ℕ
  SizeOfHeaders : ℕ
  NumberOfRvaAndSizes : ℕ
  DataDirectory : ℕ
deriving DecidableEq

section
variable (image : ℕ → UInt8)

def e_magic : ℕ := field image 0 2
def e_lfanew : ℕ := field image 0x3c 4

def Signature : ℕ := field image (e_lfanew image) 4
def Machine : ℕ := field image (e_lfanew image+4) 2
def NumberOfSections : ℕ := field image (e_lfanew image+6) 2
def SizeOfOptionalHeader : ℕ := field image (e_lfanew image+20) 2

def opt : ℕ := e_lfanew image+24

def Magic : ℕ := field image (opt image) 2

def optional_header : Option OptionalHeader :=
  if Magic image = IMAGE_NT_OPTIONAL_HDR64_MAGIC then
    some ⟨field image (opt image+24) 8,field image (opt image+32) 4,field image (opt image+36) 4,
      field image (opt image+60) 4,field image (opt image+108) 4,opt image+112⟩
  else if Magic image = IMAGE_NT_OPTIONAL_HDR32_MAGIC then
    some ⟨field image (opt image+28) 4,field image (opt image+32) 4,field image (opt image+36) 4,
      field image (opt image+60) 4,field image (opt image+92) 4,opt image+96⟩
  else none

/-- The offset of an entry of the data directory, and its fields. -/
def directory_entry (header : OptionalHeader) (i : ℕ) : ℕ := header.DataDirectory+8*i
def DirectoryVirtualAddress (header : OptionalHeader) (i : ℕ) : ℕ := field image (directory_entry header i) 4
def DirectorySize (header : OptionalHeader) (i : ℕ) : ℕ := field image (directory_entry header i+4) 4

def sections_offset : ℕ := opt image+SizeOfOptionalHeader image

def section_header (offset : ℕ) : ImageSectionHeader :=
  ⟨field image (offset+8) 4,field image (offset+12) 4,field image (offset+16) 4,field image (offset+20) 4⟩

def sections : List ImageSectionHeader :=
  (List.range (NumberOfSections image)).map fun i => section_header image (sections_offset image+section_header_size*i)

def efi_check_pe (size : ℕ) : Status :=
  if size < dos_header_size then .EFI_INVALID_PARAMETER
  else if e_magic image ≠ IMAGE_DOS_SIGNATURE then .EFI_INVALID_PARAMETER
  else if size < e_lfanew image+nt_headers32_size then .EFI_INVALID_PARAMETER
  else if Signature image ≠ IMAGE_NT_SIGNATURE then .EFI_INVALID_PARAMETER
  else .EFI_SUCCESS
end

def section_size (sec : ImageSectionHeader) : ℕ :=
  if sec.VirtualSize ≠ 0 then sec.VirtualSize else sec.SizeOfRawData

/-- The bytes of the file that are copied to the memory of the section. -/
def copy_size (sec : ImageSectionHeader) : ℕ :=
  if sec.SizeOfRawData < section_size sec then sec.SizeOfRawData else section_size sec

theorem copy_size_le (sec : ImageSectionHeader) : copy_size sec ≤ sec.SizeOfRawData := by
  rw [copy_size]
  split <;> omega

theorem check_pe_size {image : ℕ → UInt8} {size : ℕ} (checked : efi_check_pe image size = .EFI_SUCCESS) :
    e_lfanew image+nt_headers32_size ≤ size := by
  unfold efi_check_pe at checked
  split at checked
  · simp at checked
  split at checked
  · simp at checked
  split at checked
  · simp at checked
  · next fits => exact not_lt.mp fits

/-- Both kinds of header have their table inside the shorter of them. -/
theorem data_directory_bounds {image : ℕ → UInt8} {header : OptionalHeader}
    (found : optional_header image = some header) :
    opt image+96 ≤ header.DataDirectory ∧ header.DataDirectory ≤ opt image+112 := by
  unfold optional_header at found
  split at found
  · rw [← Option.some.inj found]
    exact ⟨by simp,le_rfl⟩
  split at found
  · rw [← Option.some.inj found]
    exact ⟨le_rfl,by simp⟩
  · simp at found

theorem section_fields_lt {image : ℕ → UInt8} {sec : ImageSectionHeader} (member : sec ∈ sections image) :
    sec.VirtualSize < 2^32 ∧ sec.VirtualAddress < 2^32 ∧ sec.SizeOfRawData < 2^32 ∧ sec.PointerToRawData < 2^32 := by
  obtain ⟨i,_,rfl⟩ := List.mem_map.mp member
  exact ⟨field_lt image _ 4,field_lt image _ 4,field_lt image _ 4,field_lt image _ 4⟩

def section_bytes (sec : ImageSectionHeader) : List UInt8 :=
  List.replicate 8 0 ++ little 4 sec.VirtualSize ++ little 4 sec.VirtualAddress ++ little 4 sec.SizeOfRawData ++
    little 4 sec.PointerToRawData ++ List.replicate 16 0

/-- The headers of a file for 64 bit ARM whose sections are aligned to 512 bytes, with the
    base address that it asks for and its relocation table. -/
def header_bytes (ImageBase reloc reloc_size : ℕ) (secs : List ImageSectionHeader) : List UInt8 :=
  little 2 IMAGE_DOS_SIGNATURE ++ List.replicate 58 0 ++ little 4 64 ++
    little 4 IMAGE_NT_SIGNATURE ++ little 2 0xaa64 ++ little 2 secs.length ++ List.replicate 12 0 ++ little 2 240 ++ little 2 0 ++
    little 2 IMAGE_NT_OPTIONAL_HDR64_MAGIC ++ List.replicate 22 0 ++ little 8 ImageBase ++ little 4 0x1000 ++ little 4 0x200 ++
    List.replicate 20 0 ++ little 4 0x200 ++ List.replicate 44 0 ++ little 4 16 ++
    List.replicate 40 0 ++ little 4 reloc ++ little 4 reloc_size ++ List.replicate 80 0 ++ secs.flatMap section_bytes

def pe_file (ImageBase reloc reloc_size : ℕ) (secs : List ImageSectionHeader) : ℕ → UInt8 :=
  fun i => (header_bytes ImageBase reloc reloc_size secs).getD i 0

end UBoot.EfiPe
