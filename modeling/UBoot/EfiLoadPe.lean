import UBoot.EfiPe
import UBoot.Runs

/-!
The accesses to memory of `efi_load_pe` and `efi_loader_relocate` in
`lib/efi_loader/efi_image_loader.c`. Authentication and measurement make accesses of their own and
are not looked at; relocation types of RISC-V are left out.

The relocation loop reads the table from the memory that it writes to: the address of a block is
checked once and read again for each entry, so the fix-ups stay inside as long as none hits the
address of its own block (`relocation_inside`).
-/
namespace UBoot.EfiLoadPe
open UBoot.Memory UBoot.Buffers UBoot.EfiPe UBoot.Runs List

def IMAGE_REL_BASED_ABSOLUTE : ℕ := 0
def IMAGE_REL_BASED_HIGH : ℕ := 1
def IMAGE_REL_BASED_LOW : ℕ := 2
def IMAGE_REL_BASED_HIGHLOW : ℕ := 3
def IMAGE_REL_BASED_DIR64 : ℕ := 10

def EFI_PAGE_SIZE : ℕ := 4096

def relocation_size : ℕ := 8

/-- An access to the file or to the memory for the loaded image, by offset and size. -/
inductive Access where
  | read_image (offset size : ℕ)
  | read_loaded (offset size : ℕ)
  | write_loaded (offset size : ℕ)
deriving DecidableEq

def minus (a b : ℕ) : ℕ := (a+(2^64-b%2^64))%2^64

/-- The relocation loop: the memory, the block and the entry that it stands at, the
    entries of the block that are left, and the accesses. -/
structure Walk where
  memory : ℕ → UInt8
  rel : ℕ
  relocs : ℕ
  left : ℕ
  accesses : List Access

inductive Relocating where
  | goes_on (w : Walk)
  | returns (status : Status) (w : Walk)

def Relocating.walk : Relocating → Walk
  | goes_on w => w
  | returns _ w => w

def fix_up (delta type : ℕ) : Option (ℕ × ℕ) :=
  if type = IMAGE_REL_BASED_HIGH then some (2,delta % 2^32/2^16)
  else if type = IMAGE_REL_BASED_LOW then some (2,delta)
  else if type = IMAGE_REL_BASED_HIGHLOW then some (4,delta)
  else if type = IMAGE_REL_BASED_DIR64 then some (8,delta)
  else none

section
variable (efi_reloc delta virt_size stop : ℕ)

/-- The start of a round of the outer loop, up to the first entry of the block. -/
def next_block (w : Walk) : Relocating :=
  let rel := w.relocs
  if rel+relocation_size < stop then
    if ¬ 4 ∣ efi_reloc+rel then .returns .EFI_LOAD_ERROR w
    else
      let w := { w with accesses := w.accesses ++ [.read_loaded rel relocation_size] }
      let VirtualAddress := field w.memory rel 4
      let SizeOfBlock := field w.memory (rel+4) 4
      if SizeOfBlock < relocation_size then .returns .EFI_LOAD_ERROR w
      else if stop < rel+SizeOfBlock then .returns .EFI_LOAD_ERROR w
      else if virt_size < VirtualAddress then .returns .EFI_LOAD_ERROR w
      else .goes_on { w with rel, relocs := rel+relocation_size, left := (SizeOfBlock-relocation_size)/2 }
  else .returns .EFI_SUCCESS w

/-- The place that an entry stands for, from the address of its block. -/
def entry_offset (w : Walk) : ℕ := field w.memory w.relocs 2%0x1000
def entry_type (w : Walk) : ℕ := field w.memory w.relocs 2/0x1000
def target (w : Walk) : ℕ := (field w.memory w.rel 4+entry_offset w)%2^32

def next_entry (w : Walk) : Relocating :=
  let offset := target w
  let w' := { w with accesses := w.accesses ++ [.read_loaded w.relocs 2,.read_loaded w.rel 4] }
  let done := { w' with relocs := w.relocs+2, left := w.left-1 }
  if minus virt_size (field w.memory w.rel 4) < entry_offset w then .returns .EFI_LOAD_ERROR w'
  else if entry_type w = IMAGE_REL_BASED_ABSOLUTE then .goes_on done
  else
    match fix_up delta (entry_type w) with
    | none => .returns .EFI_LOAD_ERROR w'
    | some (width,addend) =>
      if minus virt_size offset < width then .returns .EFI_LOAD_ERROR w'
      else
        .goes_on { done with
          memory := store w.memory offset (little width (field w.memory offset width+addend))
          accesses := done.accesses ++ [.read_loaded offset width,.write_loaded offset width] }

/-- A step of the two loops of `efi_loader_relocate`. -/
def step (s : Relocating) (_ : Unit) : Relocating :=
  match s with
  | .goes_on w => if w.left = 0 then next_block efi_reloc virt_size stop w else next_entry delta virt_size w
  | s => s
end

/-- `efi_loader_relocate` after some steps. The table starts at `rel`. -/
def efi_loader_relocate (memory : ℕ → UInt8) (rel rel_size efi_reloc pref_address virt_size : ℕ) (accesses : List Access)
    (steps : ℕ) : Relocating :=
  let delta := minus efi_reloc pref_address
  let w : Walk := ⟨memory,rel,rel,0,accesses⟩
  if delta = 0 then .returns .EFI_SUCCESS w
  else run (step efi_reloc delta virt_size (rel+rel_size)) (.goes_on w) (List.replicate steps ())

/-- The memory for the loaded image and the accesses while it is loaded. -/
structure Loading where
  memory : ℕ → UInt8
  accesses : List Access

def load_section (image : ℕ → UInt8) (sec : ImageSectionHeader) (s : Loading) : Loading :=
  if sec.SizeOfRawData < section_size sec then
    ⟨store (store s.memory sec.VirtualAddress (List.replicate sec.VirtualSize 0)) sec.VirtualAddress
        (load image sec.PointerToRawData sec.SizeOfRawData),
      s.accesses ++ [.write_loaded sec.VirtualAddress sec.VirtualSize,.read_image sec.PointerToRawData sec.SizeOfRawData,
        .write_loaded sec.VirtualAddress sec.SizeOfRawData]⟩
  else
    ⟨store s.memory sec.VirtualAddress (load image sec.PointerToRawData (section_size sec)),
      s.accesses ++ [.read_image sec.PointerToRawData (section_size sec),
        .write_loaded sec.VirtualAddress (section_size sec)]⟩

/-- What `efi_load_pe` finds around it: the machines of the build, the memory that
    `efi_alloc_aligned_pages` gives for a size and an alignment and what stands in and
    behind it, and whether authentication and measurement let the image pass. -/
structure Surroundings where
  machines : List ℕ
  efi_alloc_aligned_pages : ℕ → ℕ → Option ℕ
  fresh : ℕ → UInt8
  authenticated : Bool
  measured : Bool

section
variable (image : ℕ → UInt8)

/-- The upper virtual address boundary; the sum of two fields has 32 bits. -/
def virt_size : ℕ :=
  (sections image).foldr (fun sec size => max size ((sec.VirtualAddress+section_size sec)%2^32)) 0

def header_size : ℕ :=
  dos_header_size+nt_headers32_size+SizeOfOptionalHeader image+NumberOfSections image*section_header_size

/-- The reads of the fields of the headers up to the section table. -/
def header_reads : List Access :=
  [.read_image 0 2,.read_image 0x3c 4,.read_image (e_lfanew image) 4,.read_image (e_lfanew image+4) 2,
    .read_image (e_lfanew image+6) 2,.read_image (e_lfanew image+20) 2]

def section_reads : List Access :=
  (List.range (NumberOfSections image)).map fun i =>
    .read_image (sections_offset image+section_header_size*i) section_header_size

/-- The reads of the optional header: its magic, its base address, which is the only field
    that differs in size, alignment, entry point, subsystem and the entry of the
    relocation table. -/
def optional_reads : List Access :=
  .read_image (opt image) 2 ::
    match optional_header image with
    | none => []
    | some header =>
      [if Magic image = IMAGE_NT_OPTIONAL_HDR64_MAGIC then .read_image (opt image+24) 8 else .read_image (opt image+28) 4,
        .read_image (opt image+32) 4,.read_image (opt image+16) 4,.read_image (opt image+68) 2,
        .read_image (directory_entry header IMAGE_DIRECTORY_ENTRY_BASERELOC) 8]

def copied (around : Surroundings) : Loading :=
  (sections image).foldr (load_section image)
    ⟨store around.fresh 0 (load image 0 (header_size image)),[.read_image 0 (header_size image),.write_loaded 0 (header_size image)]⟩

/-- `efi_load_pe`, with the accesses that it has made; the relocation loop takes some
    steps, and there is no status before it has ended. -/
def efi_load_pe (around : Surroundings) (efi_size steps : ℕ) : Option Status × List Access :=
  if efi_size < dos_header_size then (some .EFI_LOAD_ERROR,[])
  else if efi_check_pe image efi_size ≠ .EFI_SUCCESS then
    -- the signature is read only where the headers fit into the file
    (some .EFI_LOAD_ERROR,[.read_image 0 2,.read_image 0x3c 4] ++
      if e_lfanew image+nt_headers32_size ≤ efi_size then [.read_image (e_lfanew image) 4] else [])
  else if Machine image ∉ around.machines then (some .EFI_LOAD_ERROR,header_reads image)
  else if efi_size < sections_offset image+section_header_size*NumberOfSections image then (some .EFI_LOAD_ERROR,header_reads image)
  else
    let reads := header_reads image ++ section_reads image ++ optional_reads image
    match optional_header image with
    | none => (some .EFI_LOAD_ERROR,reads)
    | some header =>
      match around.efi_alloc_aligned_pages (virt_size image) header.SectionAlignment with
      | none => (some .EFI_OUT_OF_RESOURCES,reads)
      | some efi_reloc =>
        if ¬ around.measured then (some .EFI_SECURITY_VIOLATION,reads)
        else
          let s := copied image around
          match efi_loader_relocate s.memory (DirectoryVirtualAddress image header IMAGE_DIRECTORY_ENTRY_BASERELOC)
              (DirectorySize image header IMAGE_DIRECTORY_ENTRY_BASERELOC) efi_reloc header.ImageBase (virt_size image)
              (reads ++ s.accesses) steps with
          | .returns .EFI_SUCCESS w =>
            (some (if around.authenticated then .EFI_SUCCESS else .EFI_SECURITY_VIOLATION),w.accesses)
          | .returns _ w => (some .EFI_LOAD_ERROR,w.accesses)
          | .goes_on w => (none,w.accesses)
end

/-! ## Accesses inside -/

/-- The bytes of the pages that are allocated for the image. -/
def allocated (virt_size : ℕ) : ℕ := (virt_size+EFI_PAGE_SIZE-1)/EFI_PAGE_SIZE*EFI_PAGE_SIZE

theorem le_allocated (size : ℕ) : size ≤ allocated size := by
  simp only [allocated,EFI_PAGE_SIZE]
  omega

/-- Reads are inside the file or the allocated pages, writes among the bytes that the
    sections ask for. -/
def Inside (efi_size virt_size : ℕ) : Access → Prop
  | .read_image offset size => size = 0 ∨ offset+size ≤ efi_size
  | .read_loaded offset size => size = 0 ∨ offset+size ≤ allocated virt_size
  | .write_loaded offset size => size = 0 ∨ offset+size ≤ virt_size

instance (efi_size virt_size : ℕ) (a : Access) : Decidable (Inside efi_size virt_size a) := by
  cases a <;> (unfold Inside; infer_instance)

/-- All accesses are inside, however long the relocation takes. -/
def InBounds (image : ℕ → UInt8) (around : Surroundings) (efi_size : ℕ) : Prop :=
  ∀ steps, ∀ a ∈ (efi_load_pe image around efi_size steps).2, Inside efi_size (virt_size image) a

section
variable {efi_reloc delta virt_size stop efi_size : ℕ}

/-- The fix-up of an entry that is not the last one leaves the address of its block. -/
def Spares (delta : ℕ) (w : Walk) : Prop :=
  ∀ width addend, fix_up delta (entry_type w) = some (width,addend) → 1 < w.left →
    target w+width ≤ w.rel ∨ w.rel+4 ≤ target w

def SparesStep (delta : ℕ) (s : Relocating) (_ : Unit) : Prop :=
  match s with
  | .goes_on w => w.left = 0 ∨ Spares delta w
  | .returns _ _ => True

/-- The loop is inside the table, and while it is in a block the address of the block is
    not beyond the image. -/
structure Walking (efi_size virt_size stop : ℕ) (w : Walk) : Prop where
  accesses : ∀ a ∈ w.accesses, Inside efi_size virt_size a
  entries : w.relocs+2*w.left ≤ stop
  block : w.left ≠ 0 → w.rel+relocation_size ≤ stop ∧ field w.memory w.rel 4 ≤ virt_size

theorem minus_of_le {a b : ℕ} (less : b ≤ a) (small : a < 2^64) : minus a b = a-b := by
  rw [minus]
  omega

theorem inside_append {accesses new : List Access} (old : ∀ a ∈ accesses, Inside efi_size virt_size a)
    (more : ∀ a ∈ new, Inside efi_size virt_size a) : ∀ a ∈ accesses ++ new, Inside efi_size virt_size a := by
  intro a member
  rcases mem_append.mp member with early | late
  · exact old a early
  · exact more a late

theorem fix_up_width {type width addend : ℕ} (known : fix_up delta type = some (width,addend)) : width ≤ 8 ∧ 0 < width := by
  unfold fix_up at known
  split_ifs at known <;> simp at known <;> omega

/-- The invariant of the loop, and what is left of it when it has returned. -/
def Good (efi_size virt_size stop : ℕ) : Relocating → Prop
  | .goes_on w => Walking efi_size virt_size stop w
  | .returns _ w => ∀ a ∈ w.accesses, Inside efi_size virt_size a

theorem next_block_good {w : Walk} (walking : Walking efi_size virt_size stop w) (table : stop ≤ allocated virt_size) :
    Good efi_size virt_size stop (next_block efi_reloc virt_size stop w) := by
  unfold next_block
  dsimp only
  split
  · next more =>
    have read : ∀ a ∈ w.accesses ++ [.read_loaded w.relocs relocation_size], Inside efi_size virt_size a := by
      refine inside_append walking.accesses ?_
      intro a member
      rw [mem_singleton.mp member]
      right
      omega
    split
    · exact walking.accesses
    split
    · exact read
    split
    · exact read
    split
    · exact read
    · next long fits low =>
      refine ⟨read,?_,?_⟩
      · simp only [relocation_size] at long ⊢
        omega
      · intro _
        exact ⟨more.le,not_lt.mp low⟩
  · exact walking.accesses

theorem next_entry_good {w : Walk} (walking : Walking efi_size virt_size stop w) (table : stop ≤ allocated virt_size)
    (small : virt_size < 2^32) (entry : w.left ≠ 0) (spares : Spares delta w) :
    Good efi_size virt_size stop (next_entry delta virt_size w) := by
  obtain ⟨header,address⟩ := walking.block entry
  have entries := walking.entries
  rw [relocation_size] at header
  have read : ∀ a ∈ w.accesses ++ [.read_loaded w.relocs 2,.read_loaded w.rel 4], Inside efi_size virt_size a := by
    refine inside_append walking.accesses ?_
    intro a member
    simp at member
    rcases member with rfl | rfl
    · right
      omega
    · right
      omega
  unfold next_entry
  dsimp only
  rw [minus_of_le address (by omega)]
  split
  · exact read
  next near =>
  have place : target w = field w.memory w.rel 4+entry_offset w := by
    rw [target]
    omega
  split
  · refine ⟨read,by dsimp only; omega,?_⟩
    intro _
    exact ⟨header,address⟩
  cases known : fix_up delta (entry_type w) with
  | none => exact read
  | some fix =>
    obtain ⟨width,addend⟩ := fix
    dsimp only
    rw [minus_of_le (show target w ≤ virt_size by omega) (by omega)]
    split
    · exact read
    next fits =>
    have wide := fix_up_width known
    refine ⟨inside_append read ?_,by dsimp only; omega,?_⟩
    · intro a member
      have bound := le_allocated virt_size
      simp at member
      rcases member with rfl | rfl
      · right
        omega
      · right
        omega
    · intro more
      refine ⟨header,?_⟩
      dsimp only at more ⊢
      have kept : field (store w.memory (target w) (little width (field w.memory (target w) width+addend))) w.rel 4 =
          field w.memory w.rel 4 := by
        refine congrArg number (load_store_apart w.memory ?_)
        rw [little_length]
        exact (spares width addend known (by omega)).symm
      rw [kept]
      exact address

theorem relocation_inside {w : Walk} (walking : Walking efi_size virt_size stop w) (table : stop ≤ allocated virt_size)
    (small : virt_size < 2^32) {steps : List Unit}
    (spares : Along (step efi_reloc delta virt_size stop) (SparesStep delta) (.goes_on w) steps) :
    ∀ a ∈ (run (step efi_reloc delta virt_size stop) (.goes_on w) steps).walk.accesses, Inside efi_size virt_size a := by
  have good : Good efi_size virt_size stop (run (step efi_reloc delta virt_size stop) (.goes_on w) steps) := by
    refine @invariant _ _ (step efi_reloc delta virt_size stop) (Good efi_size virt_size stop) (SparesStep delta) ?_ _ _
      walking spares
    intro s _ good spares
    cases s with
    | goes_on w =>
      rw [step]
      split
      · exact next_block_good good table
      · next entry => exact next_entry_good good table small entry (spares.resolve_left entry)
    | returns status w => exact good
  cases ended : run (step efi_reloc delta virt_size stop) (.goes_on w) steps with
  | goes_on w =>
    rw [ended] at good
    exact good.accesses
  | returns status w =>
    rw [ended] at good
    exact good
end

section
variable {image : ℕ → UInt8} {efi_size : ℕ}

def section_accesses (sec : ImageSectionHeader) : List Access :=
  if sec.SizeOfRawData < section_size sec then
    [.write_loaded sec.VirtualAddress sec.VirtualSize,.read_image sec.PointerToRawData sec.SizeOfRawData,
      .write_loaded sec.VirtualAddress sec.SizeOfRawData]
  else [.read_image sec.PointerToRawData (section_size sec),.write_loaded sec.VirtualAddress (section_size sec)]

theorem load_section_accesses (image : ℕ → UInt8) (sec : ImageSectionHeader) (s : Loading) :
    (load_section image sec s).accesses = s.accesses ++ section_accesses sec := by
  unfold load_section section_accesses
  split <;> rfl

theorem load_sections_accesses (image : ℕ → UInt8) (secs : List ImageSectionHeader) (s : Loading) :
    (secs.foldr (load_section image) s).accesses = s.accesses ++ secs.reverse.flatMap section_accesses := by
  induction secs with
  | nil => simp
  | cons sec secs ih =>
    rw [foldr_cons,load_section_accesses,ih,reverse_cons,flatMap_append,append_assoc]
    simp

/-- The headers are not longer than the file and the image, no section wraps around in
    the virtual addresses and the data of all sections are in the file. -/
structure Bounded (image : ℕ → UInt8) (efi_size : ℕ) : Prop where
  headers_read : header_size image ≤ efi_size
  headers_written : header_size image ≤ virt_size image
  addresses : ∀ sec ∈ sections image, sec.VirtualAddress+section_size sec < 2^32
  data : ∀ sec ∈ sections image, copy_size sec = 0 ∨ sec.PointerToRawData+copy_size sec ≤ efi_size

theorem virt_size_bounds (image : ℕ → UInt8) :
    virt_size image < 2^32 ∧ ∀ sec ∈ sections image, (sec.VirtualAddress+section_size sec)%2^32 ≤ virt_size image := by
  rw [virt_size]
  induction sections image with
  | nil => simp
  | cons sec secs ih =>
    rw [foldr_cons]
    constructor
    · exact max_lt ih.1 (Nat.mod_lt _ (by decide))
    · intro other member
      rcases mem_cons.mp member with rfl | later
      · exact le_max_right _ _
      · exact (ih.2 other later).trans (le_max_left _ _)

theorem section_inside_iff {sec : ImageSectionHeader} (member : sec ∈ sections image) :
    (∀ a ∈ section_accesses sec, Inside efi_size (virt_size image) a) ↔
      sec.VirtualAddress+section_size sec < 2^32 ∧
        (copy_size sec = 0 ∨ sec.PointerToRawData+copy_size sec ≤ efi_size) := by
  obtain ⟨small,upper⟩ := virt_size_bounds image
  have upper := upper sec member
  have fields := section_fields_lt member
  rw [section_accesses,copy_size]
  split
  · next short =>
    have whole : section_size sec = sec.VirtualSize := by
      simp only [section_size] at short ⊢
      split at short <;> simp_all
    simp [Inside,whole] at *
    omega
  · next long =>
    simp [Inside] at *
    omega
theorem copies_inside_iff (around : Surroundings) :
    (∀ a ∈ (copied image around).accesses, Inside efi_size (virt_size image) a) ↔ Bounded image efi_size := by
  have some_headers : header_size image ≠ 0 := by
    rw [header_size,dos_header_size]
    omega
  rw [copied,load_sections_accesses]
  constructor
  · intro inside
    have read := inside (.read_image 0 (header_size image)) (by simp)
    have written := inside (.write_loaded 0 (header_size image)) (by simp)
    have of_section {sec : ImageSectionHeader} (member : sec ∈ sections image) :=
      (@section_inside_iff image efi_size sec member).mp (fun a access =>
        inside a (mem_append_right _ (mem_flatMap.mpr ⟨sec,mem_reverse.mpr member,access⟩)))
    simp only [Inside,some_headers,zero_add,false_or] at read written
    exact ⟨read,written,fun sec member => (of_section member).1,fun sec member => (of_section member).2⟩
  · intro bounded
    refine inside_append ?_ ?_
    · intro a member
      simp at member
      rcases member with rfl | rfl
      · right
        rw [zero_add]
        exact bounded.headers_read
      · right
        rw [zero_add]
        exact bounded.headers_written
    · intro a member
      obtain ⟨sec,listed,access⟩ := mem_flatMap.mp member
      have listed := mem_reverse.mp listed
      exact (section_inside_iff listed).mpr ⟨bounded.addresses sec listed,bounded.data sec listed⟩ a access

theorem header_reads_inside (checked : efi_check_pe image efi_size = .EFI_SUCCESS) :
    ∀ a ∈ header_reads image, Inside efi_size (virt_size image) a := by
  have size := check_pe_size checked
  rw [nt_headers32_size] at size
  intro a member
  simp [header_reads] at member
  rcases member with rfl | rfl | rfl | rfl | rfl | rfl <;> (right; omega)

theorem section_reads_inside (fits : ¬ efi_size < sections_offset image+section_header_size*NumberOfSections image) :
    ∀ a ∈ section_reads image, Inside efi_size (virt_size image) a := by
  intro a member
  obtain ⟨i,range,rfl⟩ := mem_map.mp member
  have i_lt := mem_range.mp range
  simp only [section_header_size] at fits ⊢
  right
  omega

theorem optional_reads_inside (checked : efi_check_pe image efi_size = .EFI_SUCCESS) :
    ∀ a ∈ optional_reads image, Inside efi_size (virt_size image) a := by
  have size := check_pe_size checked
  rw [nt_headers32_size] at size
  intro a member
  rw [optional_reads] at member
  rcases mem_cons.mp member with rfl | field_read
  · right
    rw [opt]
    omega
  cases found : optional_header image with
  | none =>
    rw [found] at field_read
    simp at field_read
  | some header =>
    have table := data_directory_bounds found
    rw [found] at field_read
    simp only [opt] at table field_read
    simp [directory_entry,IMAGE_DIRECTORY_ENTRY_BASERELOC] at field_read
    rcases field_read with rfl | rfl | rfl | rfl | rfl
    · split <;> (right; omega)
    all_goals
      right
      omega
end

/-! ## Loading -/

section
variable (image : ℕ → UInt8) (around : Surroundings) (efi_size : ℕ)

/-- The image is accepted and memory is found for it, so that it is copied. -/
structure Reaches (header : OptionalHeader) (efi_reloc : ℕ) : Prop where
  checked : efi_check_pe image efi_size = .EFI_SUCCESS
  machine : Machine image ∈ around.machines
  table : ¬ efi_size < sections_offset image+section_header_size*NumberOfSections image
  found : optional_header image = some header
  memory : around.efi_alloc_aligned_pages (virt_size image) header.SectionAlignment = some efi_reloc
  measured : around.measured

def rel (header : OptionalHeader) : ℕ := DirectoryVirtualAddress image header IMAGE_DIRECTORY_ENTRY_BASERELOC
def rel_size (header : OptionalHeader) : ℕ := DirectorySize image header IMAGE_DIRECTORY_ENTRY_BASERELOC

def reads : List Access := header_reads image ++ section_reads image ++ optional_reads image

def begin_walk (header : OptionalHeader) : Walk :=
  ⟨(copied image around).memory,rel image header,rel image header,0,reads image ++ (copied image around).accesses⟩

def Unused (header : OptionalHeader) (efi_reloc : ℕ) : Prop :=
  minus efi_reloc header.ImageBase = 0 ∨ rel_size image header ≤ relocation_size ∨ ¬ 4 ∣ efi_reloc+rel image header

/-- The relocation table is in the allocated memory, and no fix-up but that of the last
    entry hits the address of its own block. -/
structure Relocatable (header : OptionalHeader) (efi_reloc : ℕ) : Prop where
  table : rel image header+rel_size image header ≤ allocated (virt_size image)
  spares : ∀ steps, Along
    (step efi_reloc (minus efi_reloc header.ImageBase) (virt_size image) (rel image header+rel_size image header))
    (SparesStep (minus efi_reloc header.ImageBase)) (.goes_on (begin_walk image around header)) (List.replicate steps ())

variable {image around efi_size}

theorem load_pe_reaches {header : OptionalHeader} {efi_reloc : ℕ} (reaches : Reaches image around efi_size header efi_reloc)
    (steps : ℕ) :
    (efi_load_pe image around efi_size steps).2 =
      (efi_loader_relocate (copied image around).memory (rel image header) (rel_size image header) efi_reloc header.ImageBase
        (virt_size image) (reads image ++ (copied image around).accesses) steps).walk.accesses := by
  have large : ¬ efi_size < dos_header_size := by
    have checked := reaches.checked
    unfold efi_check_pe at checked
    split at checked
    · simp at checked
    · assumption
  unfold efi_load_pe
  rw [if_neg large,if_neg (not_not.mpr reaches.checked),if_neg (not_not.mpr reaches.machine),if_neg reaches.table]
  dsimp only
  rw [reaches.found]
  dsimp only
  rw [reaches.memory]
  dsimp only
  rw [if_neg (not_not.mpr reaches.measured),← rel,← rel_size,← reads]
  split
  · next ended => rw [ended,Relocating.walk]
  · next ended => rw [ended,Relocating.walk]
  · next ended => rw [ended,Relocating.walk]

theorem load_pe_early (early : ∀ header efi_reloc, ¬ Reaches image around efi_size header efi_reloc) (steps : ℕ) :
    ∀ a ∈ (efi_load_pe image around efi_size steps).2, Inside efi_size (virt_size image) a := by
  unfold efi_load_pe
  split
  · simp
  next large =>
  split
  · next refused =>
    rw [dos_header_size] at large
    refine inside_append ?_ ?_
    · intro a member
      simp at member
      rcases member with rfl | rfl <;> (right; omega)
    · split
      · next fits =>
        rw [nt_headers32_size] at fits
        intro a member
        rw [mem_singleton.mp member]
        right
        omega
      · simp
  next checked =>
  have checked := not_not.mp checked
  split
  · exact header_reads_inside checked
  next machine =>
  split
  · exact header_reads_inside checked
  next table =>
  have inside : ∀ a ∈ reads image, Inside efi_size (virt_size image) a :=
    inside_append (inside_append (header_reads_inside checked) (section_reads_inside table)) (optional_reads_inside checked)
  dsimp only
  split
  · exact inside
  next header found =>
  split
  · exact inside
  next efi_reloc memory =>
  split
  · exact inside
  next measured =>
  exact absurd ⟨checked,not_not.mp machine,table,found,memory,not_not.mp measured⟩ (early header efi_reloc)

theorem reads_inside {header : OptionalHeader} {efi_reloc : ℕ} (reaches : Reaches image around efi_size header efi_reloc) :
    ∀ a ∈ reads image, Inside efi_size (virt_size image) a :=
  inside_append (inside_append (header_reads_inside reaches.checked) (section_reads_inside reaches.table))
    (optional_reads_inside reaches.checked)

theorem run_accesses (efi_reloc delta virt_size stop : ℕ) (w : Walk) (steps : List Unit) :
    ∀ a ∈ w.accesses, a ∈ (run (step efi_reloc delta virt_size stop) (.goes_on w) steps).walk.accesses := by
  intro a member
  refine @invariant _ _ (step efi_reloc delta virt_size stop) (fun s => a ∈ s.walk.accesses) (fun _ _ => True) ?_ _ _ member
    (along_of_forall (fun _ _ => trivial) _ _)
  intro s _ listed _
  cases s with
  | returns status w => exact listed
  | goes_on w =>
    rw [step]
    split
    · unfold next_block
      dsimp only
      split_ifs <;> simp [Relocating.walk] at listed ⊢ <;> simp [listed]
    · unfold next_entry
      dsimp only
      repeat' split
      all_goals
        simp [Relocating.walk] at listed ⊢
        simp [listed]
end

section
variable {image : ℕ → UInt8} {around : Surroundings} {efi_size : ℕ} {header : OptionalHeader} {efi_reloc : ℕ}

theorem run_returned (efi_reloc delta virt_size stop : ℕ) (status : Status) (w : Walk) (steps : List Unit) :
    run (step efi_reloc delta virt_size stop) (.returns status w) steps = .returns status w := by
  induction steps with
  | nil => rfl
  | cons _ steps ih => exact ih

theorem along_returned (efi_reloc delta virt_size stop : ℕ) (status : Status) (w : Walk) (steps : List Unit) :
    Along (step efi_reloc delta virt_size stop) (SparesStep delta) (.returns status w) steps := by
  induction steps with
  | nil => trivial
  | cons _ steps ih => exact ⟨trivial,ih⟩

theorem unused_accesses (unused : Unused image header efi_reloc) (memory : ℕ → UInt8) (accesses : List Access) (steps : ℕ) :
    (efi_loader_relocate memory (rel image header) (rel_size image header) efi_reloc header.ImageBase (virt_size image)
      accesses steps).walk.accesses = accesses := by
  rw [efi_loader_relocate]
  split
  · rfl
  next moved =>
  have unread := unused.resolve_left moved
  cases steps with
  | zero => rfl
  | succ steps =>
    -- the first step returns
    have returned : ∃ status, next_block efi_reloc (virt_size image) (rel image header+rel_size image header)
        ⟨memory,rel image header,rel image header,0,accesses⟩ =
          .returns status ⟨memory,rel image header,rel image header,0,accesses⟩ := by
      unfold next_block
      dsimp only
      split
      · next more =>
        rw [if_pos (unread.resolve_left (by omega))]
        exact ⟨_,rfl⟩
      · exact ⟨_,rfl⟩
    obtain ⟨status,returned⟩ := returned
    rw [replicate_succ,run_cons,step,if_pos rfl,returned]
    rw [run_returned]
    rfl

theorem copied_before (steps : ℕ) : ∀ a ∈ (copied image around).accesses,
    a ∈ (efi_loader_relocate (copied image around).memory (rel image header) (rel_size image header) efi_reloc header.ImageBase
      (virt_size image) (reads image ++ (copied image around).accesses) steps).walk.accesses := by
  intro a member
  rw [efi_loader_relocate]
  split
  · exact mem_append_right _ member
  · exact run_accesses _ _ _ _ _ _ a (mem_append_right _ member)

theorem relocated_inside (reaches : Reaches image around efi_size header efi_reloc) (bounded : Bounded image efi_size)
    (table : Unused image header efi_reloc ∨ Relocatable image around header efi_reloc) (steps : ℕ) :
    ∀ a ∈ (efi_load_pe image around efi_size steps).2, Inside efi_size (virt_size image) a := by
  have before := inside_append (reads_inside reaches) ((copies_inside_iff around).mpr bounded)
  rw [load_pe_reaches reaches]
  rcases table with unused | sound
  · rw [unused_accesses unused]
    exact before
  · rw [efi_loader_relocate]
    split
    · exact before
    · refine relocation_inside ⟨before,?_,fun entries => absurd rfl entries⟩ sound.table (virt_size_bounds image).1
        (sound.spares steps)
      exact Nat.le_add_right _ _
end

/-- A build for 64 bit ARM that finds memory at one address. -/
def arm64 : Surroundings := ⟨[0xaa64],fun _ _ => some 0x80000000,fun _ => 0,true,true⟩

/-- Two sections, with an empty relocation table of 12 bytes in the second one. -/
def bounded_file : ℕ → UInt8 := pe_file 0 0x2000 12 [⟨0x400,0x1000,0x400,0x200⟩,⟨0x400,0x2000,0x400,0x600⟩]

def unbounded_file : ℕ → UInt8 := pe_file 0 0 0 [⟨0x400,0x1000,0x400,0x7fff0000⟩]

end UBoot.EfiLoadPe
