import UBoot.EfiPe

/-!
The regions of an image that are hashed, `efi_image_parse` and `efi_image_region_add` in
`lib/efi_loader/efi_image_loader.c`, and whether they cover what `efi_load_pe` copies. Addresses of
regions are counted from the start of the image. Allocations succeed; `qsort` may leave sections
with the same virtual address in any order. `efi_image_parse` does not look at the result of
`efi_image_region_add`.
-/
namespace UBoot.EfiImageParse
open UBoot.Memory UBoot.Buffers UBoot.EfiPe

structure ImageRegion where
  data : ℕ
  size : ℕ
deriving DecidableEq

def ImageRegion.stop (reg : ImageRegion) : ℕ := reg.data+reg.size

/-- The loop of `efi_image_region_add` that finds the place of a region, nothing where
    it overlaps another. -/
def region_insert (start stop : ℕ) : List ImageRegion → Option (List ImageRegion)
  | [] => some [⟨start,stop-start⟩]
  | reg :: regs =>
    -- new data after registered region
    if reg.stop ≤ start then (region_insert start stop regs).map (reg :: ·)
    -- new data preceding registered region
    else if stop ≤ reg.data then some (⟨start,stop-start⟩ :: reg :: regs)
    else none

def efi_image_region_add (max : ℕ) (regs : List ImageRegion) (start stop : ℕ) (nocheck : Bool) :
    Status × List ImageRegion :=
  if max ≤ regs.length then (.EFI_OUT_OF_RESOURCES,regs)
  else if stop < start then (.EFI_INVALID_PARAMETER,regs)
  else if nocheck then (.EFI_SUCCESS,regs ++ [⟨start,stop-start⟩])
  else
    match region_insert start stop regs with
    | some regs => (.EFI_SUCCESS,regs)
    | none => (.EFI_INVALID_PARAMETER,regs)

structure Qsort where
  sort : List ImageSectionHeader → List ImageSectionHeader
  permutes : ∀ sections, (sort sections).Perm sections
  ascending : ∀ sections, (sort sections).Pairwise fun a b => a.VirtualAddress ≤ b.VirtualAddress

/-- A call of `efi_image_region_add` that ignores the status. -/
def add (max : ℕ) (regs : List ImageRegion) (start stop : ℕ) : List ImageRegion :=
  (efi_image_region_add max regs start stop false).2

/-- `(SizeOfRawData + align - 1) & ~(align - 1)` in 32 bits. -/
def aligned_size (align SizeOfRawData : ℕ) : ℕ :=
  ((BitVec.ofNat 32 SizeOfRawData+BitVec.ofNat 32 align-1#32) &&& ~~~(BitVec.ofNat 32 align-1#32)).toNat

def add_section (max align : ℕ) (state : List ImageRegion × ℕ) (sec : ImageSectionHeader) : List ImageRegion × ℕ :=
  if sec.SizeOfRawData = 0 then state
  else
    let size := aligned_size align sec.SizeOfRawData
    (add max state.1 sec.PointerToRawData (sec.PointerToRawData+size),state.2+size)

section
variable (image : ℕ → UInt8)

/-- The offsets of the fields `CheckSum` and `Subsystem`, which are the same in both kinds
    of optional header. -/
def CheckSum : ℕ := opt image+64
def Subsystem : ℕ := opt image+68

def certificate_entry (header : OptionalHeader) : ℕ := directory_entry header IMAGE_DIRECTORY_ENTRY_SECURITY

def HasCertificates (header : OptionalHeader) : Prop := ¬ header.NumberOfRvaAndSizes ≤ IMAGE_DIRECTORY_ENTRY_SECURITY

instance (header : OptionalHeader) : Decidable (HasCertificates header) := inferInstanceAs (Decidable (¬ _))

def add_headers (max : ℕ) (header : OptionalHeader) : List ImageRegion :=
  let regs := add max [] 0 (CheckSum image)
  if HasCertificates header then
    let regs := add max regs (Subsystem image) (certificate_entry header)
    add max regs (certificate_entry header+8) header.SizeOfHeaders
  else add max regs (Subsystem image) header.SizeOfHeaders

def authoff (header : OptionalHeader) : ℕ :=
  if HasCertificates header then DirectoryVirtualAddress image header IMAGE_DIRECTORY_ENTRY_SECURITY else 0

def authsz (header : OptionalHeader) : ℕ :=
  if HasCertificates header then DirectorySize image header IMAGE_DIRECTORY_ENTRY_SECURITY else 0

/-- What `efi_image_parse` hands back: the regions, and the certificate table by offset
    and size. -/
structure Parsed where
  regs : List ImageRegion
  auth : Option (ℕ × ℕ)
deriving DecidableEq

def efi_image_parse (qsort : Qsort) (len : ℕ) : Option Parsed :=
  match optional_header image with
  | none => none
  | some header =>
    let max := 3+NumberOfSections image+1
    let authoff := authoff image header
    let authsz := authsz image header
    let (regs,bytes_hashed) := (qsort.sort (sections image)).foldl (add_section max header.FileAlignment)
      (add_headers image max header,header.SizeOfHeaders)
    let regs := if bytes_hashed+authsz < len then add max regs bytes_hashed (len-authsz) else regs
    if authsz ≠ 0 then
      if len < (authoff+authsz)%2^32 then none
      else if authsz < 8 then none
      else some ⟨regs,some (authoff,authsz)⟩
    else some ⟨regs,none⟩
end

/-! ## Regions apart -/

def Apart (a b : ImageRegion) : Prop := a.stop ≤ b.data ∨ b.stop ≤ a.data

instance (a b : ImageRegion) : Decidable (Apart a b) := inferInstanceAs (Decidable (_ ∨ _))

theorem Apart.symm {a b : ImageRegion} (apart : Apart a b) : Apart b a := Or.symm apart

def Ascending (regs : List ImageRegion) : Prop := regs.Pairwise fun a b => a.stop ≤ b.data

instance (regs : List ImageRegion) : Decidable (Ascending regs) := inferInstanceAs (Decidable (List.Pairwise _ _))

def region (start stop : ℕ) : ImageRegion := ⟨start,stop-start⟩

variable {header : OptionalHeader} {len start stop : ℕ} {regs : List ImageRegion}

theorem region_stop (upright : start ≤ stop) : (region start stop).stop = stop := by
  simp only [ImageRegion.stop,region]
  omega

theorem region_insert_apart (upright : start ≤ stop) (ascending : Ascending regs)
    (apart : ∀ reg ∈ regs, Apart (region start stop) reg) :
    ∃ regs', region_insert start stop regs = some regs' ∧ regs'.Perm (region start stop :: regs) := by
  induction regs with
  | nil => exact ⟨_,rfl,.refl _⟩
  | cons reg regs ih =>
    rw [region_insert]
    by_cases after : reg.stop ≤ start
    · obtain ⟨regs',inserted,perm⟩ := ih (List.Pairwise.of_cons ascending)
        (fun other member => apart other (List.mem_cons_of_mem reg member))
      rw [if_pos after,inserted]
      exact ⟨_,rfl,(perm.cons reg).trans (.swap _ _ _)⟩
    · rw [if_neg after]
      rcases apart reg List.mem_cons_self with before | behind
      · rw [region_stop upright] at before
        rw [if_pos before]
        exact ⟨_,rfl,.refl _⟩
      · exact absurd behind after

theorem region_insert_ascending (upright : start ≤ stop) {regs regs' : List ImageRegion}
    (ascending : Ascending regs) (inserted : region_insert start stop regs = some regs') :
    Ascending regs' ∧ regs'.Perm (region start stop :: regs) := by
  induction regs generalizing regs' with
  | nil =>
    rw [region_insert] at inserted
    rw [← Option.some.inj inserted]
    exact ⟨List.pairwise_singleton _ _,.refl _⟩
  | cons reg regs ih =>
    rw [region_insert] at inserted
    have first := (List.pairwise_cons.mp ascending).1
    split at inserted
    · next after =>
      obtain ⟨rest,placed,rfl⟩ := Option.map_eq_some_iff.mp inserted
      obtain ⟨sorted,perm⟩ := ih (List.Pairwise.of_cons ascending) placed
      refine ⟨List.pairwise_cons.mpr ⟨?_,sorted⟩,(perm.cons reg).trans (.swap _ _ _)⟩
      intro other member
      rcases List.mem_cons.mp (perm.mem_iff.mp member) with rfl | old
      · exact after
      · exact first other old
    split at inserted
    · next before =>
      rw [← Option.some.inj inserted]
      refine ⟨List.pairwise_cons.mpr ⟨?_,ascending⟩,.refl _⟩
      intro other member
      rw [← region,region_stop upright]
      rcases List.mem_cons.mp member with rfl | later
      · exact before
      · have := first other later
        rw [ImageRegion.stop] at this
        omega
    · simp at inserted

theorem region_add_spec {max start stop : ℕ} {regs : List ImageRegion} (ascending : Ascending regs) :
    Ascending (add max regs start stop) ∧
      (add max regs start stop = regs ∨ start ≤ stop ∧ (add max regs start stop).Perm (region start stop :: regs)) ∧
      (start ≤ stop → regs.length < max → (∀ reg ∈ regs, Apart (region start stop) reg) →
        (add max regs start stop).Perm (region start stop :: regs)) := by
  rw [add,efi_image_region_add]
  split
  · next full => exact ⟨ascending,.inl rfl,fun _ room => absurd room (not_lt.mpr full)⟩
  split
  · next inverted => exact ⟨ascending,.inl rfl,fun upright => absurd inverted (not_lt.mpr upright)⟩
  next upright =>
  have upright := not_lt.mp upright
  rw [if_neg Bool.false_ne_true]
  cases inserted : region_insert start stop regs with
  | some regs' =>
    obtain ⟨sorted,perm⟩ := region_insert_ascending upright ascending inserted
    exact ⟨sorted,.inr ⟨upright,perm⟩,fun _ _ _ => perm⟩
  | none =>
    refine ⟨ascending,.inl rfl,?_⟩
    intro _ _ apart
    obtain ⟨regs',placed,_⟩ := region_insert_apart upright ascending apart
    rw [inserted] at placed
    simp at placed

/-! ## What is hashed -/

section
variable (image : ℕ → UInt8)

/-- The byte of the file is copied by `efi_load_pe`, in the headers or in a section. -/
def Loaded (b : ℕ) : Prop :=
  (∃ header, optional_header image = some header ∧ b < header.SizeOfHeaders) ∨
    ∃ sec ∈ sections image, sec.PointerToRawData ≤ b ∧ b < sec.PointerToRawData+copy_size sec

/-- The byte belongs to the checksum or to the entry of the certificate table. -/
def Excepted (b : ℕ) : Prop :=
  CheckSum image ≤ b ∧ b < Subsystem image ∨
    ∃ header, optional_header image = some header ∧ HasCertificates header ∧ certificate_entry header ≤ b ∧
      b < certificate_entry header+8

/-- Regions that are apart, in order and inside the image, and hold what is loaded. -/
structure Covers (len : ℕ) (regs : List ImageRegion) : Prop where
  ascending : Ascending regs
  inside : ∀ reg ∈ regs, reg.stop ≤ len
  loaded : ∀ b, Loaded image b → ¬ Excepted image b → ∃ reg ∈ regs, reg.data ≤ b ∧ b < reg.stop

/-- If the image is parsed, its regions are as they should be. -/
def Digested (qsort : Qsort) (len : ℕ) : Prop := ∀ parsed, efi_image_parse image qsort len = some parsed → Covers image len parsed.regs

def Refused (len : ℕ) : Prop :=
  ∀ header, optional_header image = some header → authsz image header ≠ 0 ∧
    (len < (authoff image header+authsz image header)%2^32 ∨ authsz image header < 8)

/-- The regions of the headers; the last one is left out if it would be inverted. -/
def header_regions (header : OptionalHeader) : List ImageRegion :=
  if HasCertificates header then
    [region 0 (CheckSum image),region (Subsystem image) (certificate_entry header)] ++
      if certificate_entry header+8 ≤ header.SizeOfHeaders then [region (certificate_entry header+8) header.SizeOfHeaders] else []
  else
    [region 0 (CheckSum image)] ++
      if Subsystem image ≤ header.SizeOfHeaders then [region (Subsystem image) header.SizeOfHeaders] else []

def section_region (header : OptionalHeader) (sec : ImageSectionHeader) : ImageRegion :=
  ⟨sec.PointerToRawData,aligned_size header.FileAlignment sec.SizeOfRawData⟩

def filled (secs : List ImageSectionHeader) : List ImageSectionHeader := secs.filter fun sec => sec.SizeOfRawData ≠ 0

/-- No section overlaps the headers or another section, and the alignment in the file is a
    power of two to which the sizes can be rounded up in 32 bits. -/
structure Regular (header : OptionalHeader) : Prop where
  apart : (header_regions image header ++ (filled (sections image)).map (section_region header)).Pairwise Apart
  power : ∃ k, header.FileAlignment = 2^k
  rounds : ∀ sec ∈ sections image, sec.SizeOfRawData+header.FileAlignment ≤ 2^32

structure Within (len : ℕ) (header : OptionalHeader) : Prop where
  headers : header.SizeOfHeaders ≤ len
  sections : ∀ sec ∈ filled (sections image), (section_region header sec).stop ≤ len
end

variable {image : ℕ → UInt8}

theorem le_aligned_size {align size k : ℕ} (power : align = 2^k) (fits : size+align ≤ 2^32) :
    size ≤ aligned_size align size := by
  rcases Nat.eq_zero_or_pos size with rfl | positive
  · exact Nat.zero_le _
  have some_align : 0 < align := power ▸ Nat.two_pow_pos k
  have below : (BitVec.ofNat 32 align-1#32).toNat = 2^k-1 := by
    rw [BitVec.toNat_sub]
    simp only [BitVec.toNat_ofNat]
    omega
  have sum : (BitVec.ofNat 32 size+BitVec.ofNat 32 align-1#32).toNat = size+align-1 := by
    rw [BitVec.toNat_sub,BitVec.toNat_add]
    simp only [BitVec.toNat_ofNat]
    omega
  -- the number is what is masked out and what is left
  have parts (x m : BitVec 32) : x.toNat = (x &&& m).toNat+(x &&& ~~~m).toNat := by
    have none : (x &&& m) &&& (x &&& ~~~m) = 0#32 := by
      ext i inside
      simp
      tauto
    have all : m ||| ~~~m = BitVec.allOnes 32 := by
      ext i inside
      simp
    rw [← BitVec.toNat_add_of_and_eq_zero none,BitVec.add_eq_or_of_and_eq_zero _ _ none,← BitVec.and_or_distrib_left,all,
      BitVec.and_allOnes]
  have whole := parts (BitVec.ofNat 32 size+BitVec.ofNat 32 align-1#32) (BitVec.ofNat 32 align-1#32)
  have rest : (2^k : ℕ) > (size+align-1)%2^k := Nat.mod_lt _ (Nat.two_pow_pos k)
  rw [BitVec.toNat_and,sum,below,Nat.and_two_pow_sub_one_eq_mod] at whole
  rw [aligned_size]
  omega

theorem not_upright {max start stop : ℕ} (inverted : ¬ start ≤ stop) :
    add max regs start stop = regs := by
  rw [add,efi_image_region_add]
  split
  · rfl
  · rw [if_pos (by omega)]

theorem add_perm {max start stop : ℕ} {regs : List ImageRegion} (ascending : Ascending regs) (room : regs.length < max)
    (apart : ∀ reg ∈ regs, Apart (region start stop) reg) :
    (add max regs start stop).Perm (regs ++ if start ≤ stop then [region start stop] else []) := by
  by_cases upright : start ≤ stop
  · rw [if_pos upright]
    exact ((region_add_spec ascending).2.2 upright room apart).trans (List.perm_append_singleton _ _).symm
  · rw [if_neg upright,not_upright upright,List.append_nil]

theorem add_ascending {max start stop : ℕ} {regs : List ImageRegion} (ascending : Ascending regs) :
    Ascending (add max regs start stop) := (region_add_spec ascending).1

/-- A region that starts where all others have ended. -/
theorem apart_behind (behind : ∀ reg ∈ regs, reg.stop ≤ start) :
    ∀ reg ∈ regs, Apart (region start stop) reg := fun reg member => .inr (behind reg member)

theorem certificate_bounds (found : optional_header image = some header) :
    Subsystem image ≤ certificate_entry header ∧ certificate_entry header ≤ opt image+144 := by
  have bounds := data_directory_bounds found
  simp only [Subsystem,certificate_entry,directory_entry,IMAGE_DIRECTORY_ENTRY_SECURITY]
  omega

theorem add_headers_perm {header : OptionalHeader} (found : optional_header image = some header) {max : ℕ} (room : 3 ≤ max) :
    Ascending (add_headers image max header) ∧ (add_headers image max header).Perm (header_regions image header) := by
  have nothing : Ascending [] := List.Pairwise.nil
  have bounds := certificate_bounds found
  have gap : CheckSum image ≤ Subsystem image := by simp [CheckSum,Subsystem]
  have first : add max [] 0 (CheckSum image) = [region 0 (CheckSum image)] := by
    have taken := @add_perm max 0 (CheckSum image) [] nothing (by simp; omega) (by simp)
    rw [if_pos (Nat.zero_le _)] at taken
    exact List.perm_singleton.mp taken
  have sorted := @add_ascending max 0 (CheckSum image) [] nothing
  rw [first] at sorted
  unfold add_headers header_regions
  dsimp only
  rw [first]
  split
  · next certificates =>
    have second := @add_perm max (Subsystem image) (certificate_entry header) _ sorted (by simp; omega)
      (apart_behind (by simpa [region_stop] using gap))
    rw [if_pos bounds.1] at second
    have sorted := @add_ascending max (Subsystem image) (certificate_entry header) _ sorted
    refine ⟨add_ascending sorted,(add_perm sorted ?_ (apart_behind ?_)).trans (second.append_right _)⟩
    · rw [second.length_eq]
      simp
      omega
    · intro reg member
      have member := second.mem_iff.mp member
      simp at member
      rcases member with rfl | rfl
      · rw [region_stop (Nat.zero_le _)]
        omega
      · rw [region_stop bounds.1]
        omega
  · next certificates =>
    refine ⟨add_ascending sorted,add_perm sorted (by simp; omega) (apart_behind ?_)⟩
    simpa [region_stop] using gap

theorem region_of_section (header : OptionalHeader) (sec : ImageSectionHeader) :
    region sec.PointerToRawData (sec.PointerToRawData+aligned_size header.FileAlignment sec.SizeOfRawData) =
      section_region header sec := by simp [region,section_region]

theorem add_sections_perm (header : OptionalHeader) {max : ℕ} (secs : List ImageSectionHeader) (regs : List ImageRegion)
    (hashed : ℕ) (ascending : Ascending regs)
    (apart : (regs ++ (filled secs).map (section_region header)).Pairwise Apart)
    (room : regs.length+(filled secs).length ≤ max) :
    Ascending (secs.foldl (add_section max header.FileAlignment) (regs,hashed)).1 ∧
      (secs.foldl (add_section max header.FileAlignment) (regs,hashed)).1.Perm
        (regs ++ (filled secs).map (section_region header)) := by
  induction secs generalizing regs hashed with
  | nil => exact ⟨ascending,by simp [filled]⟩
  | cons sec secs ih =>
    rw [List.foldl_cons,add_section]
    by_cases empty : sec.SizeOfRawData = 0
    · have same : filled (sec :: secs) = filled secs := List.filter_cons_of_neg (by simp [empty])
      rw [if_pos empty,same]
      rw [same] at apart room
      exact ih regs hashed ascending apart room
    have more : filled (sec :: secs) = sec :: filled secs := List.filter_cons_of_pos (by simp [empty])
    rw [if_neg empty,more]
    rw [more] at apart room
    rw [List.map_cons] at apart ⊢
    rw [List.length_cons] at room
    dsimp only
    have taken := @add_perm max sec.PointerToRawData
      (sec.PointerToRawData+aligned_size header.FileAlignment sec.SizeOfRawData) regs ascending (by omega) ?_
    · rw [if_pos (Nat.le_add_right _ _),region_of_section] at taken
      have shape : regs ++ section_region header sec :: (filled secs).map (section_region header) =
          (regs ++ [section_region header sec]) ++ (filled secs).map (section_region header) := by simp
      rw [shape] at apart ⊢
      obtain ⟨sorted,perm⟩ := ih _ (hashed+aligned_size header.FileAlignment sec.SizeOfRawData)
        (add_ascending ascending) (((taken.append_right _).pairwise_iff Apart.symm).mpr apart)
        (by rw [taken.length_eq]; simp; omega)
      exact ⟨sorted,perm.trans (taken.append_right _)⟩
    · intro reg member
      have behind := (List.pairwise_append.mp apart).2.2 reg member _ List.mem_cons_self
      rw [region_of_section]
      exact behind.symm

def parsed_regs (image : ℕ → UInt8) (qsort : Qsort) (len : ℕ) (header : OptionalHeader) : List ImageRegion :=
  let max := 3+NumberOfSections image+1
  let state := (qsort.sort (sections image)).foldl (add_section max header.FileAlignment)
    (add_headers image max header,header.SizeOfHeaders)
  if state.2+authsz image header < len then add max state.1 state.2 (len-authsz image header) else state.1

theorem parse_of_header (found : optional_header image = some header) (qsort : Qsort) (len : ℕ) :
    efi_image_parse image qsort len =
      if authsz image header ≠ 0 then
        if len < (authoff image header+authsz image header)%2^32 then none
        else if authsz image header < 8 then none
        else some ⟨parsed_regs image qsort len header,some (authoff image header,authsz image header)⟩
      else some ⟨parsed_regs image qsort len header,none⟩ := by
  unfold efi_image_parse
  rw [found]
  rfl

theorem parse_refused {qsort : Qsort} (refused : Refused image len) : efi_image_parse image qsort len = none := by
  cases found : optional_header image with
  | none =>
    unfold efi_image_parse
    rw [found]
  | some header =>
    obtain ⟨signed,wrong⟩ := refused header found
    rw [parse_of_header found,if_pos signed]
    split
    · rfl
    · next fits => rw [if_pos (wrong.resolve_left fits)]

theorem digested_iff (found : optional_header image = some header) {qsort : Qsort}
    (taken : ¬ Refused image len) : Digested image qsort len ↔ Covers image len (parsed_regs image qsort len header) := by
  have parsed : ∃ auth, efi_image_parse image qsort len = some ⟨parsed_regs image qsort len header,auth⟩ := by
    rw [parse_of_header found]
    by_cases signed : authsz image header ≠ 0
    · have right : ¬ (len < (authoff image header+authsz image header)%2^32 ∨ authsz image header < 8) := by
        intro wrong
        apply taken
        intro other same
        rw [found] at same
        rw [← Option.some.inj same]
        exact ⟨signed,wrong⟩
      rw [not_or] at right
      rw [if_pos signed,if_neg right.1,if_neg right.2]
      exact ⟨_,rfl⟩
    · rw [if_neg signed]
      exact ⟨_,rfl⟩
  obtain ⟨auth,parsed⟩ := parsed
  constructor
  · intro digested
    exact digested _ parsed
  · intro covers result same
    rw [parsed] at same
    rw [← Option.some.inj same]
    exact covers

theorem parsed_regs_regular (found : optional_header image = some header)
    (regular : Regular image header) (qsort : Qsort) (len : ℕ) :
    Ascending (parsed_regs image qsort len header) ∧
      (∀ reg ∈ header_regions image header ++ (filled (sections image)).map (section_region header),
        reg ∈ parsed_regs image qsort len header) ∧
      ∀ reg ∈ parsed_regs image qsort len header,
        reg ∈ header_regions image header ++ (filled (sections image)).map (section_region header) ∨ reg.stop ≤ len := by
  obtain ⟨sorted,headers⟩ := @add_headers_perm image header found (3+NumberOfSections image+1) (by omega)
  have sections_perm : (filled (qsort.sort (sections image))).Perm (filled (sections image)) :=
    (qsort.permutes _).filter _
  have all := headers.append (sections_perm.map (section_region header))
  have count : (filled (qsort.sort (sections image))).length ≤ NumberOfSections image := by
    rw [sections_perm.length_eq]
    refine (List.length_filter_le _ _).trans ?_
    simp [sections]
  have few : (add_headers image (3+NumberOfSections image+1) header).length ≤ 3 := by
    rw [headers.length_eq,header_regions]
    split_ifs <;> simp
  obtain ⟨ascending,perm⟩ := add_sections_perm header (qsort.sort (sections image)) _ header.SizeOfHeaders sorted
    ((all.pairwise_iff Apart.symm).mpr regular.apart) (show _ ≤ 3+NumberOfSections image+1 by omega)
  have members := perm.trans all
  unfold parsed_regs
  dsimp only
  generalize (qsort.sort (sections image)).foldl _ _ = state at ascending members ⊢
  split
  · next extra =>
    obtain ⟨sorted,added,_⟩ := @region_add_spec (3+NumberOfSections image+1) state.2 (len-authsz image header) state.1 ascending
    rcases added with same | ⟨upright,taken⟩
    · rw [same]
      exact ⟨ascending,fun reg => members.mem_iff.mpr,fun reg member => .inl (members.mem_iff.mp member)⟩
    refine ⟨sorted,?_,?_⟩
    · intro reg member
      exact taken.mem_iff.mpr (List.mem_cons_of_mem _ (members.mem_iff.mpr member))
    · intro reg member
      rcases List.mem_cons.mp (taken.mem_iff.mp member) with rfl | old
      · right
        rw [region_stop upright]
        exact Nat.sub_le _ _
      · exact .inl (members.mem_iff.mp old)
  · exact ⟨ascending,fun reg => members.mem_iff.mpr,fun reg member => .inl (members.mem_iff.mp member)⟩

theorem header_region_stop (found : optional_header image = some header)
    (checked : efi_check_pe image len = .EFI_SUCCESS) :
    (∀ reg ∈ header_regions image header, reg.stop ≤ len) ↔ header.SizeOfHeaders ≤ len := by
  have size := check_pe_size checked
  have bounds := certificate_bounds found
  simp only [opt,Subsystem,nt_headers32_size] at size bounds
  unfold header_regions
  split
  · split
    · next upright =>
      simp [region_stop,upright,bounds,Subsystem,CheckSum,opt]
      omega
    · simp [region_stop,bounds,Subsystem,CheckSum,opt]
      omega
  · split
    · next upright =>
      simp [region_stop,upright,CheckSum,opt]
      omega
    · next inverted =>
      simp [region_stop,CheckSum,opt]
      simp only [Subsystem,opt] at inverted
      omega

theorem header_covered (found : optional_header image = some header) {b : ℕ}
    (inside : b < header.SizeOfHeaders) (hashed : ¬ Excepted image b) :
    ∃ reg ∈ header_regions image header, reg.data ≤ b ∧ b < reg.stop := by
  have bounds := certificate_bounds found
  simp only [Excepted,not_or,not_exists,not_and,not_lt] at hashed
  obtain ⟨checksum,entry⟩ := hashed
  by_cases early : b < CheckSum image
  · refine ⟨region 0 (CheckSum image),?_,Nat.zero_le _,by rwa [region_stop (Nat.zero_le _)]⟩
    unfold header_regions
    split <;> simp
  have late : Subsystem image ≤ b := checksum (not_lt.mp early)
  unfold header_regions
  split
  · next certificates =>
    by_cases before : b < certificate_entry header
    · exact ⟨region (Subsystem image) (certificate_entry header),by simp,late,by rwa [region_stop bounds.1]⟩
    · have behind := entry header found certificates (not_lt.mp before)
      have upright : certificate_entry header+8 ≤ header.SizeOfHeaders := by omega
      exact ⟨region (certificate_entry header+8) header.SizeOfHeaders,by simp [upright],behind,by rwa [region_stop upright]⟩
  · have upright : Subsystem image ≤ header.SizeOfHeaders := by omega
    exact ⟨region (Subsystem image) header.SizeOfHeaders,by simp [upright],late,by rwa [region_stop upright]⟩

theorem section_covered (regular : Regular image header) {sec : ImageSectionHeader}
    (member : sec ∈ sections image) {b : ℕ} (low : sec.PointerToRawData ≤ b) (high : b < sec.PointerToRawData+copy_size sec) :
    ∃ reg ∈ (filled (sections image)).map (section_region header), reg.data ≤ b ∧ b < reg.stop := by
  obtain ⟨k,power⟩ := regular.power
  have copied := copy_size_le sec
  have rounded := le_aligned_size power (regular.rounds sec member)
  have some_data : sec.SizeOfRawData ≠ 0 := by omega
  refine ⟨section_region header sec,List.mem_map_of_mem ?_,low,?_⟩
  · exact List.mem_filter.mpr ⟨member,by simpa using some_data⟩
  · simp only [section_region,ImageRegion.stop]
    omega

theorem covers_iff (found : optional_header image = some header) (regular : Regular image header)
    (qsort : Qsort) (checked : efi_check_pe image len = .EFI_SUCCESS) :
    Covers image len (parsed_regs image qsort len header) ↔ Within image len header := by
  obtain ⟨ascending,kept,others⟩ := parsed_regs_regular found regular qsort len
  constructor
  · intro covers
    constructor
    · refine (header_region_stop found checked).mp ?_
      intro reg member
      exact covers.inside reg (kept reg (List.mem_append_left _ member))
    · intro sec member
      exact covers.inside _ (kept _ (List.mem_append_right _ (List.mem_map_of_mem member)))
  · intro within
    refine ⟨ascending,?_,?_⟩
    · intro reg member
      rcases others reg member with old | short
      · rcases List.mem_append.mp old with header_reg | section_reg
        · exact (header_region_stop found checked).mpr within.headers reg header_reg
        · obtain ⟨sec,filled_sec,rfl⟩ := List.mem_map.mp section_reg
          exact within.sections sec filled_sec
      · exact short
    · rintro b (⟨other,same,inside⟩ | ⟨sec,member,low,high⟩) hashed
      · rw [found] at same
        rw [← Option.some.inj same] at inside
        obtain ⟨reg,header_reg,place⟩ := header_covered found inside hashed
        exact ⟨reg,kept reg (List.mem_append_left _ header_reg),place⟩
      · obtain ⟨reg,section_reg,place⟩ := section_covered regular member low high
        exact ⟨reg,kept reg (List.mem_append_right _ section_reg),place⟩

/-- An insertion sort, which keeps the order of equal addresses. -/
def insertion_sort : Qsort :=
  ⟨fun secs => secs.insertionSort fun a b => a.VirtualAddress ≤ b.VirtualAddress,
    fun secs => List.perm_insertionSort _ secs,
    fun secs => @List.pairwise_insertionSort _ (fun a b : ImageSectionHeader => a.VirtualAddress ≤ b.VirtualAddress) _
      ⟨fun _ _ => Nat.le_total _ _⟩ ⟨fun _ _ _ => Nat.le_trans⟩ secs⟩

/-- Two sections of 1 KiB, one behind the other. -/
def apart_image : ℕ → UInt8 := pe_file 0 0 0 [⟨0x400,0x1000,0x400,0x200⟩,⟨0x400,0x2000,0x400,0x600⟩]

/-- The same sections, but the second one starts in the middle of the first one. -/
def overlapping_image : ℕ → UInt8 := pe_file 0 0 0 [⟨0x400,0x1000,0x400,0x200⟩,⟨0x400,0x2000,0x400,0x400⟩]

end UBoot.EfiImageParse
