import UBoot.UplHandoff

/-!
The handoff read back. For each part of the structure it is said when it can be written and which
node it makes (`params_written`, `memory_written`, …), and when that node can be read and what is
read from it (`params_read`, `memory_read`, …). The whole structure comes back as it was if and
only if it is `Portable`.
-/
namespace UBoot.UplHandoff
open UBoot.OfNode List Option

/-- The node with a property that is only written under a condition. -/
def write_optional (node : Node) (prop : String) (given : Prop) [Decidable given] (value : List Char) : Node :=
  if given then ofnode_write_prop node prop value else node

section
variable (node : Node) (prop : String) (given : Prop) [Decidable given] (value : List Char)

@[simp] theorem optional_name : (write_optional node prop given value).name = node.name := by
  unfold write_optional
  split_ifs with yes
  · rfl
  · rfl

@[simp] theorem optional_children : (write_optional node prop given value).children = node.children := by
  unfold write_optional
  split_ifs with yes
  · rfl
  · rfl

theorem read_optional (missing : ofnode_read_prop node prop = none) :
    ofnode_read_prop (write_optional node prop given value) prop = if given then some value else none := by
  unfold write_optional
  split_ifs with yes
  · simp
  · exact missing

theorem read_optional_other {other : String} (differ : prop ≠ other) :
    ofnode_read_prop (write_optional node prop given value) other = ofnode_read_prop node other := by
  unfold write_optional
  split_ifs with yes
  · exact read_other node differ value
  · rfl

end

/-! ## The options -/

theorem add_filled {node child result : Node} {name : List Char} {fill : Node → Except Errno Node}
    (filled : fill (empty_node name) = .ok child) :
    ofnode_add_subnode node name fill = .ok result ↔ name ∉ node.children.map Node.name ∧ result = add_child node child := by
  rw [add_subnode_ok,filled]
  simp

def params_node (upl : Upl) : Node :=
  let node := ofnode_write_prop (empty_node UPLN_UPL_PARAMS) "smbios" (cells upl.addr_cells upl.smbios)
  let node := ofnode_write_prop node "acpi" (cells upl.addr_cells upl.acpi)
  let node := write_optional node "bootmode" (upl.bootmode ≠ 0) (mask_value bootmode_names upl.bootmode)
  let node := ofnode_write_prop node "addr-width" (big 4 upl.addr_width.toNat)
  ofnode_write_prop node "acpi-nvs-size" (big 4 upl.acpi_nvs_size.toNat)

theorem params_name (upl : Upl) : (params_node upl).name = UPLN_UPL_PARAMS := by simp [params_node]

theorem params_written {upl : Upl} {options result : Node} :
    add_upl_params upl options = .ok result ↔
      UPLN_UPL_PARAMS ∉ options.children.map Node.name ∧ result = add_child options (params_node upl) := by
  unfold add_upl_params
  apply add_filled
  unfold params_node write_optional
  by_cases zero : upl.bootmode = 0
  · simp [zero,write_addr_eq,ofnode_write_u32,bind,Except.bind]
  · simp [zero,write_addr_eq,ofnode_write_u32,bind,Except.bind,write_bitmask_eq bootmode_bits]

def params_back (upl read : Upl) : Upl :=
  {read with smbios := held upl.addr_cells upl.smbios, acpi := held upl.addr_cells upl.acpi,
             bootmode := .ofNat (upl.bootmode.toNat%2^12), addr_width := upl.addr_width, acpi_nvs_size := upl.acpi_nvs_size}

def image_node (upl : Upl) (entry : UplImage × ℕ) : Node :=
  let subnode := ofnode_write_prop (empty_node (image_name entry.2)) "load" (cells upl.addr_cells entry.1.load)
  let subnode := ofnode_write_prop subnode "size" (cells upl.size_cells entry.1.size)
  let subnode := write_optional subnode "offset" (entry.1.offset ≠ 0) (big 4 entry.1.offset.toNat)
  ofnode_write_prop subnode "description" ((entry.1.description.elim [] (·.1)) ++ [Fdt.NUL])

theorem image_node_name (upl : Upl) (entry : UplImage × ℕ) : (image_node upl entry).name = image_name entry.2 := by
  simp [image_node]

theorem image_written (upl : Upl) (node : Node) (entry : UplImage × ℕ) (result : Node) :
    add_image upl node entry = .ok result ↔ entry.1.description ≠ none ∧
      (image_node upl entry).name ∉ node.children.map Node.name ∧ result = add_child node (image_node upl entry) := by
  rw [image_node_name]
  unfold add_image
  cases given : entry.1.description with
  | none =>
    rw [add_subnode_ok]
    simp
  | some description =>
    rw [@add_filled node (image_node upl entry)]
    · simp
    · simp [image_node,write_optional,given,write_addr_eq,write_size_eq,ofnode_write_string,ofnode_write_u32]

/-- What is read of an image: an offset that is zero is left as it was on the stack. -/
def image_back (upl : Upl) (stack : ℕ → UplImage) (entry : UplImage × ℕ) : UplImage :=
  {load := held upl.addr_cells entry.1.load, size := held upl.size_cells entry.1.size,
   offset := if entry.1.offset ≠ 0 then entry.1.offset else (stack entry.2).offset, description := entry.1.description}

def fit_node (upl : Upl) : Node :=
  let node := write_optional (empty_node UPLN_UPL_IMAGE) "fit" (upl.fit ≠ 0) (big 4 upl.fit.toNat)
  write_optional node "conf-offset" (upl.conf_offset ≠ 0) (big 4 upl.conf_offset.toNat)

theorem fit_node_eq (upl : Upl) : (fit_node upl).name = UPLN_UPL_IMAGE ∧ (fit_node upl).children = [] ∧
    ofnode_read_prop (fit_node upl) "fit" = (if upl.fit ≠ 0 then some (big 4 upl.fit.toNat) else none) ∧
    ofnode_read_prop (fit_node upl) "conf-offset" =
      if upl.conf_offset ≠ 0 then some (big 4 upl.conf_offset.toNat) else none := by
  refine ⟨by simp [fit_node],by simp [fit_node],?_,?_⟩
  · simp only [fit_node]
    rw [read_optional_other _ _ _ _ (by simp),read_optional _ _ _ _ (by simp)]
  · simp only [fit_node]
    rw [read_optional _ _ _ _ (by simp [read_optional_other])]

def images_node (upl : Upl) : Node := add_children (fit_node upl) (upl.image.zipIdx.map (image_node upl))

theorem images_name (upl : Upl) : (images_node upl).name = UPLN_UPL_IMAGE := (fit_node_eq upl).1

theorem images_written {upl : Upl} {options result : Node} :
    add_upl_image upl options = .ok result ↔
      UPLN_UPL_IMAGE ∉ options.children.map Node.name ∧ (∀ img ∈ upl.image, img.description ≠ none) ∧
        upl.image.length < 1000 ∧ result = add_child options (images_node upl) := by
  have names : (upl.image.zipIdx.map fun entry => (image_node upl entry).name) =
      (List.range upl.image.length).map image_name := by
    simp only [image_node_name]
    rw [range_eq_range',← zipIdx_map_snd 0 upl.image,List.map_map]
    rfl
  have entries : (∀ entry ∈ upl.image.zipIdx, entry.1.description ≠ none) ↔ ∀ img ∈ upl.image, img.description ≠ none := by
    constructor
    · intro each img member
      obtain ⟨i,inside,rfl⟩ := getElem_of_mem member
      exact each (upl.image[i],i) (by simp [mem_zipIdx_iff_getElem?,inside])
    · rintro each ⟨img,i⟩ member
      exact each img (fst_mem_of_mem_zipIdx member)
  have base : add_upl_image upl options =
      ofnode_add_subnode options UPLN_UPL_IMAGE fun _ => upl.image.zipIdx.foldlM (add_image upl) (fit_node upl) := by
    unfold add_upl_image ofnode_add_subnode
    rfl
  rw [base,add_subnode_ok]
  simp only [add_each_ok (image_written upl),names,image_names_nodup_iff,entries,(fit_node_eq upl).2.1]
  constructor
  · rintro ⟨fresh,child,⟨given,few,-,rfl⟩,done⟩
    exact ⟨fresh,given,few,done⟩
  · rintro ⟨fresh,given,few,done⟩
    exact ⟨fresh,_,⟨given,few,by simp,rfl⟩,done⟩

def images_back (upl : Upl) (stack : ℕ → UplImage) (read : Upl) : Upl :=
  {read with fit := held upl.addr_cells upl.fit, conf_offset := upl.conf_offset,
             image := upl.image.zipIdx.map (image_back upl stack)}

/-! ## Memory -/

def first_base (region : List Memregion) : UInt64 := (region.head?.map Memregion.base).getD 0

def regions_node (upl : Upl) (base : List Char) (region : List Memregion) : Node :=
  ofnode_write_prop (empty_node (node_name base (first_base region))) "reg" (regions_value upl region)

theorem regions_written {upl : Upl} {parent result : Node} {base : List Char} {region : List Memregion}
    {fill : Node → Except Errno Node} :
    add_regions upl parent base region fill = .ok result ↔ region ≠ [] ∧ (node_name base (first_base region)).length < 26 ∧
      node_name base (first_base region) ∉ parent.children.map Node.name ∧
      ∃ child, fill (regions_node upl base region) = .ok child ∧ result = add_child parent child := by
  unfold add_regions
  cases region with
  | nil => simp
  | cons first region =>
    have buffer := @buffer_addr_size_eq upl ((first :: region).length*16) (first :: region) [] (by simp)
    have name : first_base (first :: region) = first.base := rfl
    simp only [bind_ok,sprintf_name_ok,buffer,name,regions_node,nil_append]
    constructor
    · rintro ⟨_,⟨room,rfl⟩,added⟩
      obtain ⟨fresh,child,filled,done⟩ := add_subnode_ok.mp added
      exact ⟨cons_ne_nil _ _,room,fresh,child,filled,done⟩
    · rintro ⟨-,room,fresh,child,filled,done⟩
      exact ⟨_,⟨room,rfl⟩,add_subnode_ok.mpr ⟨fresh,child,filled,done⟩⟩

def memory_node (upl : Upl) (mem : UplMem) : Node :=
  write_optional (regions_node upl UPLN_MEMORY mem.region) "hotpluggable" (mem.hotpluggable = true) []

theorem memory_name (upl : Upl) (mem : UplMem) :
    (memory_node upl mem).name = node_name UPLN_MEMORY (first_base mem.region) := by
  simp [memory_node,regions_node]

theorem memory_written (upl : Upl) (root : Node) (mem : UplMem) (result : Node) :
    (add_regions upl root UPLN_MEMORY mem.region fun node =>
      .ok (if mem.hotpluggable then ofnode_write_bool node "hotpluggable" else node)) = .ok result ↔
      mem.region ≠ [] ∧ (memory_node upl mem).name ∉ root.children.map Node.name ∧ result = add_child root (memory_node upl mem) := by
  have room := name_room (show UPLN_MEMORY.length+19 < 26 by decide) (first_base mem.region)
  rw [regions_written,memory_name]
  simp only [room,true_and,Except.ok.injEq,exists_eq_left']
  rfl

def memmap_node (upl : Upl) (memmap : UplMemmap) : Node :=
  write_optional (regions_node upl memmap.name memmap.region) "usage" (memmap.usage ≠ 0) (mask_value usage_names memmap.usage)

theorem memmap_name (upl : Upl) (memmap : UplMemmap) :
    (memmap_node upl memmap).name = node_name memmap.name (first_base memmap.region) := by
  simp [memmap_node,regions_node]

theorem memmap_written (upl : Upl) (mem_node : Node) (memmap : UplMemmap) (result : Node) :
    (add_regions upl mem_node memmap.name memmap.region fun node =>
      if memmap.usage ≠ 0 then ofnode_write_bitmask node "usage" usage_names memmap.usage else .ok node) = .ok result ↔
      (memmap.region ≠ [] ∧ (node_name memmap.name (first_base memmap.region)).length < 26) ∧
        (memmap_node upl memmap).name ∉ mem_node.children.map Node.name ∧
        result = add_child mem_node (memmap_node upl memmap) := by
  have filled : (if memmap.usage ≠ 0 then
      ofnode_write_bitmask (regions_node upl memmap.name memmap.region) "usage" usage_names memmap.usage
      else .ok (regions_node upl memmap.name memmap.region)) = .ok (memmap_node upl memmap) := by
    unfold memmap_node write_optional
    by_cases unused : memmap.usage = 0
    · simp [unused]
    · simp [unused,write_bitmask_eq usage_bits]
  rw [regions_written,memmap_name,filled]
  simp only [Except.ok.injEq,exists_eq_left',and_assoc]

def memmap_back (upl : Upl) (memmap : UplMemmap) : UplMemmap :=
  ⟨node_name memmap.name (first_base memmap.region),memmap.region.map (held_region upl),.ofNat (memmap.usage.toNat%2^6)⟩

def memres_node (upl : Upl) (memres : UplMemres) : Node :=
  write_optional (regions_node upl memres.name memres.region) "no-map" (memres.no_map = true) []

theorem memres_name (upl : Upl) (memres : UplMemres) :
    (memres_node upl memres).name = node_name memres.name (first_base memres.region) := by
  simp [memres_node,regions_node]

theorem memres_written (upl : Upl) (mem_node : Node) (memres : UplMemres) (result : Node) :
    (add_regions upl mem_node memres.name memres.region fun node =>
      .ok (if memres.no_map then ofnode_write_bool node "no-map" else node)) = .ok result ↔
      (memres.region ≠ [] ∧ (node_name memres.name (first_base memres.region)).length < 26) ∧
        (memres_node upl memres).name ∉ mem_node.children.map Node.name ∧
        result = add_child mem_node (memres_node upl memres) := by
  rw [regions_written,memres_name]
  simp only [Except.ok.injEq,exists_eq_left',and_assoc]
  rfl

def memres_back (upl : Upl) (memres : UplMemres) : UplMemres :=
  ⟨node_name memres.name (first_base memres.region),memres.region.map (held_region upl),memres.no_map⟩

/-! ## Console and display -/

def serial_node (upl : Upl) (compatible : CString) : Node :=
  let ser := upl.serial
  let node := ofnode_write_prop (empty_node (node_name UPLN_SERIAL (first_base ser.reg))) "compatible" (compatible.1 ++ [Fdt.NUL])
  let node := ofnode_write_prop node "clock-frequency" (big 4 ser.clock_frequency.toNat)
  let node := ofnode_write_prop node "current-speed" (big 4 ser.current_speed.toNat)
  let node := ofnode_write_prop node "reg" (regions_value upl (ser.reg.take 1))
  let node := write_optional node "reg-io-shift" (ser.reg_io_shift ≠ UPLD_REG_IO_SHIFT) (big 4 ser.reg_io_shift.toNat)
  let node := write_optional node "reg-offset" (ser.reg_offset ≠ UPLD_REG_OFFSET) (big 4 ser.reg_offset.toNat)
  let node := write_optional node "reg-io-width" (ser.reg_io_width ≠ UPLD_REG_IO_WIDTH) (big 4 ser.reg_io_width.toNat)
  let node := write_optional node "virtual-reg" (ser.virtual_reg ≠ 0) (cells upl.addr_cells ser.virtual_reg)
  ofnode_write_prop node "access-type" (access_types ser.access_type ++ [Fdt.NUL])

theorem serial_name (upl : Upl) (compatible : CString) :
    (serial_node upl compatible).name = node_name UPLN_SERIAL (first_base upl.serial.reg) := by simp [serial_node]

theorem serial_written {upl : Upl} {root result : Node} {compatible : CString} (given : upl.serial.compatible = some compatible) :
    add_upl_serial upl root false = .ok result ↔ upl.serial.reg ≠ [] ∧
      (serial_node upl compatible).name ∉ root.children.map Node.name ∧ result = add_child root (serial_node upl compatible) := by
  unfold add_upl_serial
  cases regs : upl.serial.reg with
  | nil => simp [given,regs]
  | cons first rest =>
    have buffer := @buffer_addr_size_eq upl 16 [first] [] (by simp)
    have room := name_room (show UPLN_SERIAL.length+19 < 26 by decide) first.base
    have name : (serial_node upl compatible).name = node_name UPLN_SERIAL first.base := by
      rw [serial_name,regs]
      rfl
    have sprintf := sprintf_name_ok.mpr ⟨room,rfl⟩
    simp only [given,regs,Bool.false_eq_true,if_false,sprintf,bind,Except.bind]
    rw [name,@add_filled root (serial_node upl compatible)]
    · simp
    · simp [serial_node,write_optional,regs,first_base,buffer,write_addr_eq,ofnode_write_string,ofnode_write_u32]

def serial_back (upl : Upl) : UplSerial :=
  {upl.serial with reg := (upl.serial.reg.take 1).map (held_region upl), virtual_reg := held upl.addr_cells upl.serial.virtual_reg}

def graphics_node (upl : Upl) : Node :=
  let gra := upl.graphics
  let node := ofnode_write_prop (empty_node (node_name UPLN_GRAPHICS (first_base gra.reg))) "compatible" (UPLC_GRAPHICS ++ [Fdt.NUL])
  let node := ofnode_write_prop node "reg" (regions_value upl (gra.reg.take 1))
  let node := ofnode_write_prop node "width" (big 4 gra.width.toNat)
  let node := ofnode_write_prop node "height" (big 4 gra.height.toNat)
  let node := ofnode_write_prop node "stride" (big 4 gra.stride.toNat)
  ofnode_write_prop node "format" (graphics_formats gra.format ++ [Fdt.NUL])

theorem graphics_name (upl : Upl) :
    (graphics_node upl).name = node_name UPLN_GRAPHICS (first_base upl.graphics.reg) := by simp [graphics_node]

theorem graphics_written {upl : Upl} {root result : Node} (regs : upl.graphics.reg ≠ []) :
    add_upl_graphics upl root = .ok result ↔
      (graphics_node upl).name ∉ root.children.map Node.name ∧ result = add_child root (graphics_node upl) := by
  obtain ⟨first,rest,split⟩ := exists_cons_of_ne_nil regs
  have buffer := @buffer_addr_size_eq upl 16 [first] [] (by simp)
  have room := name_room (show UPLN_GRAPHICS.length+19 < 36 by decide) first.base
  have name : (graphics_node upl).name = node_name UPLN_GRAPHICS first.base := by
    rw [graphics_name,split]
    rfl
  have sprintf := sprintf_name_ok.mpr ⟨room,rfl⟩
  unfold add_upl_graphics
  simp only [split,sprintf,bind,Except.bind]
  rw [name,@add_filled root (graphics_node upl)]
  simp [graphics_node,split,first_base,buffer,ofnode_write_string,ofnode_write_u32]

def graphics_back (upl : Upl) : UplGraphics := {upl.graphics with reg := (upl.graphics.reg.take 1).map (held_region upl)}

/-! ## The parts read back -/

def SameCells (upl read : Upl) : Prop := read.addr_cells = upl.addr_cells ∧ read.size_cells = upl.size_cells

def memory_back (upl : Upl) (mem : UplMem) : UplMem := ⟨mem.region.map (held_region upl),mem.hotpluggable⟩

theorem read_default {node : Node} {prop : String} {value usual : UInt32}
    (there : ofnode_read_prop node prop = if value ≠ usual then some (big 4 value.toNat) else none) :
    (read_uint node prop).toOption.getD usual = value := by
  by_cases same : value = usual
  · rw [if_neg (by simp [same])] at there
    simp [read_uint_none there,same,Except.toOption]
  · rw [if_pos same] at there
    simp [read_uint_held there,Except.toOption]

theorem read_value {α : Type} {node : Node} {prop : String} {names : α → List Char} {values : List α} {value : α}
    (free : Fdt.NUL ∉ names value) (first : values.find? (names · = names value) = some value)
    (there : ofnode_read_prop node prop = some (names value ++ [Fdt.NUL])) :
    ofnode_read_value node prop names values = .ok value := by
  have text := @read_string_held node prop ⟨names value,free⟩ there
  unfold ofnode_read_value
  simp only [text,first]

theorem access_free (access : AccessType) : Fdt.NUL ∉ access_types access := by
  cases access with
  | mmio => decide
  | io => decide

theorem access_first (access : AccessType) : [AccessType.mmio,.io].find? (access_types · = access_types access) = some access := by
  cases access with
  | mmio => rfl
  | io => rfl

theorem format_free (format : GraphicsFormat) : Fdt.NUL ∉ graphics_formats format := by
  cases format with
  | UPLGF_ARGB32 => decide
  | UPLGF_ABGR32 => decide
  | UPLGF_ABGR64 => decide

theorem format_first (format : GraphicsFormat) :
    [.UPLGF_ARGB32,.UPLGF_ABGR32,.UPLGF_ABGR64].find? (graphics_formats · = graphics_formats format) = some format := by
  cases format with
  | UPLGF_ARGB32 => rfl
  | UPLGF_ABGR32 => rfl
  | UPLGF_ABGR64 => rfl

section
variable {upl read : Upl} (same : SameCells upl read)
include same

theorem params_read {result : Upl} {options : Node}
    (found : ofnode_find_subnode options UPLN_UPL_PARAMS = some (params_node upl)) :
    decode_upl_params read options = .ok result ↔ upl.bootmode.toNat%2^12 ≠ 0 ∧ result = params_back upl read := by
  have smbios : ofnode_read_prop (params_node upl) "smbios" = some (cells upl.addr_cells upl.smbios) := by
    simp [params_node,read_other,read_optional_other]
  have acpi : ofnode_read_prop (params_node upl) "acpi" = some (cells upl.addr_cells upl.acpi) := by
    simp [params_node,read_other,read_optional_other]
  have width : ofnode_read_prop (params_node upl) "addr-width" = some (big 4 upl.addr_width.toNat) := by
    simp [params_node,read_other]
  have nvs : ofnode_read_prop (params_node upl) "acpi-nvs-size" = some (big 4 upl.acpi_nvs_size.toNat) := by
    simp [params_node]
  rw [← same.1] at smbios acpi
  unfold decode_upl_params params_back
  simp only [found,read_addr_held smbios,read_addr_held acpi,read_uint_held width,read_uint_held nvs,same.1,bind,Except.bind]
  by_cases zero : upl.bootmode = 0
  · have missing : ofnode_read_prop (params_node upl) "bootmode" = none := by
      simp [params_node,read_optional,zero,read_other]
    simp [read_bitmask_none bootmode_names missing,zero]
  have there : ofnode_read_prop (params_node upl) "bootmode" = some (mask_value bootmode_names upl.bootmode) := by
    simp [params_node,read_optional,zero,read_other]
  have twelve : bootmode_names.length = 12 := rfl
  simp only [read_bitmask_eq bootmode_bits there,twelve]
  by_cases clear : upl.bootmode.toNat%2^12 = 0
  · rw [if_pos clear]
    constructor
    · intro failed
      cases failed
    · rintro ⟨named,-⟩
      exact absurd clear named
  · rw [if_neg clear]
    simp only [Except.ok.injEq,ne_eq,clear,not_false_eq_true,true_and]
    exact eq_comm

theorem image_read {entry : UplImage × ℕ} {description : CString} (given : entry.1.description = some description)
    (stack : ℕ → UplImage) :
    ofnode_read_string (image_node upl entry) "description" = some description ∧
      {(read_image read (image_node upl entry) (stack entry.2)).1 with description := some description} =
        image_back upl stack entry := by
  have load : ofnode_read_prop (image_node upl entry) "load" = some (cells upl.addr_cells entry.1.load) := by
    simp [image_node,read_other,read_optional_other]
  have size : ofnode_read_prop (image_node upl entry) "size" = some (cells upl.size_cells entry.1.size) := by
    simp [image_node,read_other,read_optional_other]
  have text : ofnode_read_prop (image_node upl entry) "description" = some (description.1 ++ [Fdt.NUL]) := by
    simp [image_node,given]
  rw [← same.1] at load
  rw [← same.2] at size
  refine ⟨read_string_held text,?_⟩
  unfold read_image image_back
  simp only [read_addr_held load,read_size_held size,same.1,same.2,given]
  by_cases zero : entry.1.offset = 0
  · have missing : ofnode_read_prop (image_node upl entry) "offset" = none := by
      simp [image_node,zero,read_other,read_optional]
    simp [read_uint_none missing,zero]
  · have there : ofnode_read_prop (image_node upl entry) "offset" = some (big 4 entry.1.offset.toNat) := by
      simp [image_node,zero,read_other,read_optional]
    simp [read_uint_held there,zero]

theorem images_read (stack : ℕ → UplImage) {image : List UplImage} (given : ∀ img ∈ image, img.description ≠ none) (before : List UplImage) :
    decode_images read stack ((image.zipIdx before.length).map (image_node upl)) before =
      .ok (before ++ (image.zipIdx before.length).map (image_back upl stack)) := by
  induction image generalizing before with
  | nil => simp [decode_images]
  | cons img image ih =>
    obtain ⟨description,known⟩ := ne_none_iff_exists'.mp (given img mem_cons_self)
    obtain ⟨text,back⟩ := @image_read upl read same (img,before.length) description known stack
    have rest := ih (fun other member => given other (mem_cons_of_mem _ member))
      (before ++ [image_back upl stack (img,before.length)])
    rw [length_append,length_singleton] at rest
    rw [zipIdx_cons,map_cons,decode_images]
    simp only [text,back]
    rw [rest]
    simp

theorem options_read {result : Upl} {options : Node} (none_yet : read.image = []) (stack : ℕ → UplImage)
    (given : ∀ img ∈ upl.image, img.description ≠ none)
    (found : ofnode_find_subnode options UPLN_UPL_IMAGE = some (images_node upl)) :
    decode_upl_images read stack options = .ok result ↔ upl.fit ≠ 0 ∧ upl.addr_cells = 1 ∧ upl.conf_offset ≠ 0 ∧
      result = images_back upl stack read := by
  obtain ⟨-,childless,fit,conf⟩ := fit_node_eq upl
  have fit' : ofnode_read_prop (images_node upl) "fit" = if upl.fit ≠ 0 then some (big 4 upl.fit.toNat) else none := fit
  have conf' : ofnode_read_prop (images_node upl) "conf-offset" =
      if upl.conf_offset ≠ 0 then some (big 4 upl.conf_offset.toNat) else none := conf
  have children : (images_node upl).children = upl.image.zipIdx.map (image_node upl) := by
    simp [images_node,childless]
  have images := images_read same stack given []
  simp only [length_nil,nil_append] at images
  unfold decode_upl_images images_back
  simp only [found,bind_ok]
  by_cases no_fit : upl.fit = 0
  · rw [if_neg (by simp [no_fit])] at fit'
    simp [read_addr_none fit',no_fit]
  by_cases one : upl.addr_cells = 1
  · have there : ofnode_read_prop (images_node upl) "fit" = some (cells read.addr_cells upl.fit) := by
      rw [fit',if_pos no_fit,cells,if_pos (same.1.trans one)]
    by_cases no_conf : upl.conf_offset = 0
    · rw [if_neg (by simp [no_conf])] at conf'
      simp [read_uint_none conf',no_conf]
    · rw [if_pos no_conf] at conf'
      simp only [read_addr_held there,read_uint_held conf',children,none_yet,images,Except.ok.injEq,exists_eq_left',no_fit,
        no_conf,one,same.1,ne_eq,not_false_eq_true,true_and]
      exact eq_comm
  · rw [if_pos no_fit] at fit'
    have short : read_addr read (images_node upl) "fit" = .error .EOVERFLOW := by
      rw [← same.1] at one
      simp [read_addr,one,ofnode_read_u64,read_number,fit',Except.map]
    simp [short,one]

variable (addr : OneOrTwo upl.addr_cells) (size : OneOrTwo upl.size_cells)
include addr size

theorem memory_read (mem : UplMem) :
    decode_upl_memory_node read (memory_node upl mem) =
      .ok {read with mem := read.mem ++ [memory_back upl mem]} := by
  have reg : ofnode_read_prop (memory_node upl mem) "reg" = some (regions_value upl mem.region) := by
    simp [memory_node,regions_node,read_optional_other]
  have hot : ofnode_read_bool (memory_node upl mem) "hotpluggable" = mem.hotpluggable := by
    unfold ofnode_read_bool memory_node regions_node
    rw [read_optional _ _ _ _ (by simp [read_other])]
    cases mem.hotpluggable with
    | false => rfl
    | true => rfl
  unfold decode_upl_memory_node
  simp only [reg,hot,decode_addr_size_eq addr size same.1 same.2,bind,Except.bind]
  rfl

theorem memmap_read {result : Upl} (memmap : UplMemmap) :
    decode_memmap_node read (memmap_node upl memmap) = .ok result ↔ (memmap.usage ≠ 0 → memmap.usage.toNat%2^6 ≠ 0) ∧
      result = {read with memmap := read.memmap ++ [memmap_back upl memmap]} := by
  have reg : ofnode_read_prop (memmap_node upl memmap) "reg" = some (regions_value upl memmap.region) := by
    simp [memmap_node,regions_node,read_optional_other]
  unfold decode_memmap_node memmap_back
  simp only [reg,memmap_name,decode_addr_size_eq addr size same.1 same.2,bind,Except.bind]
  by_cases unused : memmap.usage = 0
  · have missing : ofnode_read_prop (memmap_node upl memmap) "usage" = none := by
      simp [memmap_node,regions_node,unused,read_other,read_optional]
    simp [read_bitmask_none usage_names missing,unused,eq_comm]
  have there : ofnode_read_prop (memmap_node upl memmap) "usage" = some (mask_value usage_names memmap.usage) := by
    simp [memmap_node,regions_node,unused,read_other,read_optional]
  have six : usage_names.length = 6 := rfl
  simp only [read_bitmask_eq usage_bits there,six]
  by_cases clear : memmap.usage.toNat%2^6 = 0
  · rw [if_pos clear]
    constructor
    · intro failed
      cases failed
    · rintro ⟨named,-⟩
      exact absurd clear (named unused)
  · rw [if_neg clear]
    simp only [Except.ok.injEq,ne_eq,clear,unused,not_false_eq_true,implies_true,true_and]
    exact eq_comm

theorem memres_read (memres : UplMemres) :
    decode_memres_node read (memres_node upl memres) =
      .ok {read with memres := read.memres ++ [memres_back upl memres]} := by
  have reg : ofnode_read_prop (memres_node upl memres) "reg" = some (regions_value upl memres.region) := by
    simp [memres_node,regions_node,read_optional_other]
  have no_map : ofnode_read_bool (memres_node upl memres) "no-map" = memres.no_map := by
    unfold ofnode_read_bool memres_node regions_node
    rw [read_optional _ _ _ _ (by simp [read_other])]
    cases memres.no_map with
    | false => rfl
    | true => rfl
  unfold decode_memres_node memres_back
  simp only [reg,no_map,memres_name,decode_addr_size_eq addr size same.1 same.2,bind,Except.bind]

theorem decode_serial_reg (first : Memregion) :
    decode_addr_size read (regions_value upl [first]) SIZEOF_BUF =
      if upl.addr_cells = 1 ∧ upl.size_cells = 1 then .ok [held_region upl first] else .error .ENOSPC := by
  by_cases ones : upl.addr_cells = 1 ∧ upl.size_cells = 1
  · have length : (regions_value upl [first]).length = SIZEOF_BUF := by
      rw [regions_value_length addr size,ones.1,ones.2]
      rfl
    rw [if_pos ones,← length,decode_addr_size_eq addr size same.1 same.2]
    rfl
  have wide : read.addr_cells.toNat*4+read.size_cells.toNat*4 > 8 := by
    rw [same.1,same.2]
    cases addr with
    | inl addr_one =>
      cases size with
      | inl size_one => exact absurd ⟨addr_one,size_one⟩ ones
      | inr size_two => simp [addr_one,size_two]
    | inr addr_two =>
      cases size with
      | inl size_one => simp [addr_two,size_one]
      | inr size_two => simp [addr_two,size_two]
  rw [if_neg ones]
  unfold decode_addr_size SIZEOF_BUF decode_addr_size_from
  simp [wide]

theorem serial_read {result : Upl} {compatible : CString} (given : upl.serial.compatible = some compatible) (regs : upl.serial.reg ≠ [])
    (zero : read.serial.virtual_reg = 0) :
    decode_upl_serial read (serial_node upl compatible) = .ok result ↔ (upl.addr_cells = 1 ∧ upl.size_cells = 1) ∧
      result = {read with serial := serial_back upl} := by
  obtain ⟨first,rest,split⟩ := exists_cons_of_ne_nil regs
  have text : ofnode_read_prop (serial_node upl compatible) "compatible" = some (compatible.1 ++ [Fdt.NUL]) := by
    simp [serial_node,read_other,read_optional_other]
  have clock : ofnode_read_prop (serial_node upl compatible) "clock-frequency" = some (big 4 upl.serial.clock_frequency.toNat) := by
    simp [serial_node,read_other,read_optional_other]
  have speed : ofnode_read_prop (serial_node upl compatible) "current-speed" = some (big 4 upl.serial.current_speed.toNat) := by
    simp [serial_node,read_other,read_optional_other]
  have reg : ofnode_read_prop (serial_node upl compatible) "reg" = some (regions_value upl [first]) := by
    simp [serial_node,read_other,read_optional_other,split]
  have access : ofnode_read_prop (serial_node upl compatible) "access-type" =
      some (access_types upl.serial.access_type ++ [Fdt.NUL]) := by
    simp [serial_node]
  have shift := @read_default (serial_node upl compatible) "reg-io-shift" upl.serial.reg_io_shift UPLD_REG_IO_SHIFT (by
    simp [serial_node,read_other,read_optional_other,read_optional])
  have offset := @read_default (serial_node upl compatible) "reg-offset" upl.serial.reg_offset UPLD_REG_OFFSET (by
    simp [serial_node,read_other,read_optional_other,read_optional])
  have width := @read_default (serial_node upl compatible) "reg-io-width" upl.serial.reg_io_width UPLD_REG_IO_WIDTH (by
    simp [serial_node,read_other,read_optional_other,read_optional])
  have virtual : (read_addr read (serial_node upl compatible) "virtual-reg").toOption.getD read.serial.virtual_reg =
      held upl.addr_cells upl.serial.virtual_reg := by
    have there : ofnode_read_prop (serial_node upl compatible) "virtual-reg" =
        if upl.serial.virtual_reg ≠ 0 then some (cells read.addr_cells upl.serial.virtual_reg) else none := by
      simp [serial_node,read_other,read_optional_other,read_optional,same.1]
    by_cases none_given : upl.serial.virtual_reg = 0
    · rw [if_neg (by simp [none_given])] at there
      rw [read_addr_none there,none_given,zero]
      simp [held,Except.toOption]
    · rw [if_pos none_given] at there
      rw [read_addr_held there,same.1]
      rfl
  unfold decode_upl_serial
  simp only [read_string_held text,read_uint_held clock,read_uint_held speed,reg,shift,offset,width,virtual,read_value (access_free _) (access_first _) access,
    decode_serial_reg same addr size first,bind,Except.bind]
  by_cases ones : upl.addr_cells = 1 ∧ upl.size_cells = 1
  · rw [if_pos ones]
    simp only [ones,and_self,true_and,Except.ok.injEq,serial_back,split,given,take_succ_cons,take_zero,map_cons,
      map_nil]
    exact eq_comm
  · rw [if_neg ones]
    constructor
    · intro failed
      cases failed
    · rintro ⟨are_ones,-⟩
      exact absurd are_ones ones

theorem graphics_read :
    decode_upl_graphics read (graphics_node upl) = .ok {read with graphics := graphics_back upl} := by
  have text : ofnode_read_prop (graphics_node upl) "compatible" = some (UPLC_GRAPHICS ++ [Fdt.NUL]) := by
    simp [graphics_node,read_other]
  have reg : ofnode_read_prop (graphics_node upl) "reg" = some (regions_value upl (upl.graphics.reg.take 1)) := by
    simp [graphics_node,read_other]
  have width : ofnode_read_prop (graphics_node upl) "width" = some (big 4 upl.graphics.width.toNat) := by
    simp [graphics_node,read_other]
  have height : ofnode_read_prop (graphics_node upl) "height" = some (big 4 upl.graphics.height.toNat) := by
    simp [graphics_node,read_other]
  have stride : ofnode_read_prop (graphics_node upl) "stride" = some (big 4 upl.graphics.stride.toNat) := by
    simp [graphics_node,read_other]
  have format : ofnode_read_prop (graphics_node upl) "format" = some (graphics_formats upl.graphics.format ++ [Fdt.NUL]) := by
    simp [graphics_node]
  have compat := @read_string_held (graphics_node upl) "compatible" ⟨UPLC_GRAPHICS,by decide⟩ text
  unfold decode_upl_graphics
  simp only [compat,ne_eq,not_true_eq_false,if_false,reg,read_uint_held width,read_uint_held height,read_uint_held stride,
    read_value (format_free _) (format_first _) format,decode_addr_size_eq addr size same.1 same.2,bind,Except.bind]
  rfl

end

/-! ## The tree -/

def front (name : List Char) : List Char := name.takeWhile (· ≠ '@')

theorem not_among {children : List Node} {fronts : List (List Char)} {name : List Char}
    (known : ∀ child ∈ children, front child.name ∈ fronts) (new : front name ∉ fronts) : name ∉ children.map Node.name := by
  intro member
  obtain ⟨child,there,same⟩ := List.mem_map.mp member
  exact new (same ▸ known child there)

def options_node (upl : Upl) : Node := add_children (empty_node UPLN_OPTIONS) [params_node upl,images_node upl]

theorem options_written {upl : Upl} {root result : Node} :
    (ofnode_add_subnode root UPLN_OPTIONS fun options => do
      let options ← add_upl_params upl options
      add_upl_image upl options) = .ok result ↔ UPLN_OPTIONS ∉ root.children.map Node.name ∧
        (∀ img ∈ upl.image, img.description ≠ none) ∧ upl.image.length < 1000 ∧ result = add_child root (options_node upl) := by
  have apart : UPLN_UPL_IMAGE ∉ [(params_node upl).name] := by
    rw [params_name]
    decide
  have both : add_child (add_child (empty_node UPLN_OPTIONS) (params_node upl)) (images_node upl) = options_node upl := rfl
  rw [add_subnode_ok]
  simp only [bind_ok,params_written,images_written]
  constructor
  · rintro ⟨fresh,options,⟨_,⟨-,rfl⟩,-,given,few,rfl⟩,done⟩
    exact ⟨fresh,given,few,by rw [done,both]⟩
  · rintro ⟨fresh,given,few,done⟩
    exact ⟨fresh,_,⟨_,⟨by simp,rfl⟩,by simpa using apart,given,few,rfl⟩,by rw [done,both]⟩

def memmaps_node (upl : Upl) : Node := add_children (empty_node UPLN_MEMORY_MAP) (upl.memmap.map (memmap_node upl))

def memress_node (upl : Upl) : Node := add_children (empty_node UPLN_MEMORY_RESERVED) (upl.memres.map (memres_node upl))

/-- Entries with regions whose nodes can be written below one node. -/
structure Writable {α : Type} (name : α → List Char) (region : α → List Memregion) (entries : List α) : Prop where
  regions : ∀ entry ∈ entries, region entry ≠ []
  room : ∀ entry ∈ entries, (node_name (name entry) (first_base (region entry))).length < 26
  distinct : (entries.map fun entry => node_name (name entry) (first_base (region entry))).Nodup

theorem memmaps_written {upl : Upl} {root result : Node} (fresh : UPLN_MEMORY_MAP ∉ root.children.map Node.name) :
    add_upl_memmap upl root = .ok result ↔ Writable UplMemmap.name UplMemmap.region upl.memmap ∧
      result = if upl.memmap = [] then root else add_child root (memmaps_node upl) := by
  unfold add_upl_memmap
  by_cases empty : upl.memmap = []
  · rw [if_pos empty,if_pos empty,empty]
    constructor
    · intro done
      exact ⟨⟨by simp,by simp,by simp⟩,(Except.ok.inj done).symm⟩
    · rintro ⟨-,rfl⟩
      rfl
  · rw [if_neg empty,if_neg empty,add_subnode_ok]
    simp only [add_each_ok (memmap_written upl),memmap_name]
    constructor
    · rintro ⟨-,child,⟨goods,distinct,-,rfl⟩,done⟩
      exact ⟨⟨fun entry member => (goods entry member).1,fun entry member => (goods entry member).2,distinct⟩,done⟩
    · rintro ⟨⟨regions,room,distinct⟩,done⟩
      exact ⟨fresh,_,⟨fun entry member => ⟨regions entry member,room entry member⟩,distinct,by simp,rfl⟩,done⟩

theorem memress_written {upl : Upl} {root result : Node} (fresh : UPLN_MEMORY_RESERVED ∉ root.children.map Node.name) :
    add_upl_memres upl root false = .ok result ↔ (upl.memmap ≠ [] → Writable UplMemres.name UplMemres.region upl.memres) ∧
      result = if upl.memmap = [] then root else add_child root (memress_node upl) := by
  unfold add_upl_memres
  by_cases empty : upl.memmap = []
  · rw [if_pos empty,if_pos empty]
    constructor
    · intro done
      exact ⟨fun some => absurd empty some,(Except.ok.inj done).symm⟩
    · rintro ⟨-,rfl⟩
      rfl
  · rw [if_neg empty,if_neg empty,if_neg (by simp),add_subnode_ok]
    simp only [add_each_ok (memres_written upl),memres_name]
    constructor
    · rintro ⟨-,child,⟨goods,distinct,-,rfl⟩,done⟩
      exact ⟨fun _ => ⟨fun entry member => (goods entry member).1,fun entry member => (goods entry member).2,distinct⟩,done⟩
    · rintro ⟨writable,done⟩
      obtain ⟨regions,room,distinct⟩ := writable empty
      exact ⟨fresh,_,⟨fun entry member => ⟨regions entry member,room entry member⟩,distinct,by simp,rfl⟩,done⟩

def map_nodes (upl : Upl) : List Node := if upl.memmap = [] then [] else [memmaps_node upl,memress_node upl]

def serial_nodes (upl : Upl) : List Node := (upl.serial.compatible.map (serial_node upl)).toList

def graphics_nodes (upl : Upl) : List Node := if upl.graphics.reg = [] then [] else [graphics_node upl]

/-- The tree that `upl_create_handoff_tree` makes. -/
def root_node (upl : Upl) : Node :=
  add_children (add_root_props upl (empty_node []))
    (options_node upl :: upl.mem.map (memory_node upl) ++ map_nodes upl ++ serial_nodes upl ++ graphics_nodes upl)

structure Written (upl : Upl) : Prop where
  descriptions : ∀ img ∈ upl.image, img.description ≠ none
  few_images : upl.image.length < 1000
  regions : ∀ mem ∈ upl.mem, mem.region ≠ []
  apart : (upl.mem.map fun mem => first_base mem.region).Nodup
  memmap : Writable UplMemmap.name UplMemmap.region upl.memmap
  memres : upl.memmap ≠ [] → Writable UplMemres.name UplMemres.region upl.memres
  serial : upl.serial.compatible ≠ none → upl.serial.reg ≠ []

def stage (upl : Upl) (children : List Node) : Node := add_children (add_root_props upl (empty_node [])) children

theorem stage_children (upl : Upl) (children : List Node) : (stage upl children).children = children := rfl

theorem stage_add (upl : Upl) (children more : List Node) :
    add_children (stage upl children) more = stage upl (children ++ more) := rfl

theorem stage_push (upl : Upl) (children : List Node) (child : Node) :
    add_child (stage upl children) child = stage upl (children ++ [child]) := rfl

theorem options_front (upl : Upl) : front (options_node upl).name = UPLN_OPTIONS := rfl

theorem memory_front (upl : Upl) (mem : UplMem) : front (memory_node upl mem).name = UPLN_MEMORY := by
  rw [memory_name]
  exact front_of_name (by decide) _

theorem serial_front (upl : Upl) (compatible : CString) : front (serial_node upl compatible).name = UPLN_SERIAL := by
  rw [serial_name]
  exact front_of_name (by decide) _

theorem graphics_front (upl : Upl) : front (graphics_node upl).name = UPLN_GRAPHICS := by
  rw [graphics_name]
  exact front_of_name (by decide) _

def memory_nodes (upl : Upl) : List Node := options_node upl :: upl.mem.map (memory_node upl)

theorem memory_fronts (upl : Upl) :
    ∀ child ∈ memory_nodes upl, front child.name ∈ [UPLN_OPTIONS,UPLN_MEMORY] := by
  intro child member
  cases mem_cons.mp member with
  | inl options =>
    rw [options,options_front]
    exact mem_cons_self
  | inr memory =>
    obtain ⟨mem,-,rfl⟩ := List.mem_map.mp memory
    rw [memory_front]
    exact mem_cons_of_mem _ mem_cons_self

theorem map_fronts (upl : Upl) : ∀ child ∈ memory_nodes upl ++ map_nodes upl,
    front child.name ∈ [UPLN_OPTIONS,UPLN_MEMORY,UPLN_MEMORY_MAP,UPLN_MEMORY_RESERVED] := by
  intro child member
  cases mem_append.mp member with
  | inl before =>
    have := memory_fronts upl child before
    simp only [mem_cons,not_mem_nil,or_false] at this ⊢
    exact this.elim .inl fun memory => .inr (.inl memory)
  | inr mapped =>
    unfold map_nodes at mapped
    by_cases empty : upl.memmap = []
    · simp [empty] at mapped
    rw [if_neg empty] at mapped
    simp only [mem_cons,not_mem_nil,or_false] at mapped
    cases mapped with
    | inl memmaps =>
      have : front (memmaps_node upl).name = UPLN_MEMORY_MAP := rfl
      rw [memmaps,this]
      simp
    | inr memress =>
      have : front (memress_node upl).name = UPLN_MEMORY_RESERVED := rfl
      rw [memress,this]
      simp

theorem memory_stage (upl : Upl) (result : Node) :
    add_upl_memory upl (stage upl [options_node upl]) = .ok result ↔ (∀ mem ∈ upl.mem, mem.region ≠ []) ∧
      (upl.mem.map fun mem => first_base mem.region).Nodup ∧
      result = stage upl (memory_nodes upl) := by
  have injective : Function.Injective (node_name UPLN_MEMORY) := fun _ _ same => node_name_same_base.mp same
  have distinct : (upl.mem.map fun mem => node_name UPLN_MEMORY (first_base mem.region)).Nodup ↔
      (upl.mem.map fun mem => first_base mem.region).Nodup := by
    rw [← nodup_map_iff injective,List.map_map]
    rfl
  unfold add_upl_memory
  rw [add_each_ok (memory_written upl)]
  simp only [memory_name,distinct,stage_add,singleton_append]
  constructor
  · rintro ⟨regions,apart,-,done⟩
    exact ⟨regions,apart,done⟩
  · rintro ⟨regions,apart,done⟩
    refine ⟨regions,apart,?_,done⟩
    intro mem member
    apply @not_among _ [UPLN_OPTIONS]
    · intro child there
      rw [stage_children,mem_singleton] at there
      rw [there,options_front]
      exact mem_cons_self
    · have front_memory : front (node_name UPLN_MEMORY (first_base mem.region)) = UPLN_MEMORY := front_of_name (by decide) _
      rw [front_memory]
      decide

theorem map_stage (upl : Upl) (result : Node) :
    (do
      let root ← add_upl_memmap upl (stage upl (memory_nodes upl))
      add_upl_memres upl root false) = .ok result ↔ Writable UplMemmap.name UplMemmap.region upl.memmap ∧
      (upl.memmap ≠ [] → Writable UplMemres.name UplMemres.region upl.memres) ∧
      result = stage upl (memory_nodes upl ++ map_nodes upl) := by
  have fresh_map : UPLN_MEMORY_MAP ∉ (stage upl (memory_nodes upl)).children.map Node.name :=
    not_among (memory_fronts upl) (by decide)
  rw [bind_ok]
  simp only [memmaps_written fresh_map]
  by_cases empty : upl.memmap = []
  · have fresh_res : UPLN_MEMORY_RESERVED ∉ (stage upl (memory_nodes upl)).children.map Node.name :=
      not_among (memory_fronts upl) (by decide)
    have same : map_nodes upl = [] := if_pos empty
    simp only [if_pos empty,same,append_nil]
    constructor
    · rintro ⟨_,⟨writable,rfl⟩,rest⟩
      obtain ⟨reserved,done⟩ := (memress_written fresh_res).mp rest
      exact ⟨writable,reserved,by rw [done,if_pos empty]⟩
    · rintro ⟨writable,reserved,done⟩
      exact ⟨_,⟨writable,rfl⟩,(memress_written fresh_res).mpr ⟨reserved,by rw [done,if_pos empty]⟩⟩
  have fresh_res : UPLN_MEMORY_RESERVED ∉
      (add_child (stage upl (memory_nodes upl)) (memmaps_node upl)).children.map Node.name := by
    have front_map : front (memmaps_node upl).name = UPLN_MEMORY_MAP := rfl
    apply @not_among _ [UPLN_OPTIONS,UPLN_MEMORY,UPLN_MEMORY_MAP]
    · intro child there
      rw [add_child_children,stage_children,mem_append,mem_singleton] at there
      cases there with
      | inl before =>
        have := memory_fronts upl child before
        simp only [mem_cons,not_mem_nil,or_false] at this ⊢
        exact this.elim .inl fun memory => .inr (.inl memory)
      | inr here =>
        rw [here,front_map]
        simp
    · decide
  have both : map_nodes upl = [memmaps_node upl,memress_node upl] := if_neg empty
  have joined : stage upl (memory_nodes upl ++ [memmaps_node upl,memress_node upl]) =
      add_child (add_child (stage upl (memory_nodes upl)) (memmaps_node upl)) (memress_node upl) := by
    rw [stage_push,stage_push]
    simp
  simp only [if_neg empty,both,joined]
  constructor
  · rintro ⟨_,⟨writable,rfl⟩,rest⟩
    obtain ⟨reserved,done⟩ := (memress_written fresh_res).mp rest
    exact ⟨writable,reserved,by rw [done,if_neg empty]⟩
  · rintro ⟨writable,reserved,done⟩
    exact ⟨_,⟨writable,rfl⟩,(memress_written fresh_res).mpr ⟨reserved,by rw [done,if_neg empty]⟩⟩

theorem serial_stage (upl : Upl) (result : Node) :
    add_upl_serial upl (stage upl (memory_nodes upl ++ map_nodes upl)) false = .ok result ↔
      (upl.serial.compatible ≠ none → upl.serial.reg ≠ []) ∧
      result = stage upl (memory_nodes upl ++ map_nodes upl ++ serial_nodes upl) := by
  cases given : upl.serial.compatible with
  | none =>
    have no_node : serial_nodes upl = [] := by simp [serial_nodes,given]
    rw [no_node,append_nil]
    simp [add_upl_serial,given,eq_comm]
  | some compatible =>
    have one_node : serial_nodes upl = [serial_node upl compatible] := by simp [serial_nodes,given]
    have fresh := @not_among _ _ (serial_node upl compatible).name (map_fronts upl) (by rw [serial_front]; decide)
    rw [serial_written given,one_node,← stage_push,stage_children]
    constructor
    · rintro ⟨regs,-,done⟩
      exact ⟨fun _ => regs,done⟩
    · rintro ⟨regs,done⟩
      exact ⟨regs (by simp),fresh,done⟩

theorem graphics_stage (upl : Upl) :
    add_upl_graphics upl (stage upl (memory_nodes upl ++ map_nodes upl ++ serial_nodes upl)) =
      if upl.graphics.reg = [] then .error .ENOENT else .ok (root_node upl) := by
  by_cases none_given : upl.graphics.reg = []
  · rw [if_pos none_given]
    simp [add_upl_graphics,none_given]
  have one_node : graphics_nodes upl = [graphics_node upl] := if_neg none_given
  rw [if_neg none_given,graphics_written none_given,stage_push]
  constructor
  · apply @not_among _ [UPLN_OPTIONS,UPLN_MEMORY,UPLN_MEMORY_MAP,UPLN_MEMORY_RESERVED,UPLN_SERIAL]
    · intro child member
      rw [stage_children,mem_append] at member
      cases member with
      | inl before =>
        have := map_fronts upl child before
        simp only [mem_cons,not_mem_nil,or_false] at this ⊢
        tauto
      | inr serial =>
        obtain ⟨compatible,-,rfl⟩ := map_eq_some_iff.mp (mem_toList.mp serial)
        rw [serial_front]
        simp
    · rw [graphics_front]
      decide
  · rw [root_node,one_node,stage,memory_nodes]

theorem graphics_end (upl : Upl) (result : Node) :
    unless_missing (stage upl (memory_nodes upl ++ map_nodes upl ++ serial_nodes upl))
      (add_upl_graphics upl (stage upl (memory_nodes upl ++ map_nodes upl ++ serial_nodes upl))) =
        .ok result ↔ result = root_node upl := by
  rw [graphics_stage]
  by_cases none_given : upl.graphics.reg = []
  · have no_node : graphics_nodes upl = [] := if_pos none_given
    have whole : root_node upl =
        stage upl (memory_nodes upl ++ map_nodes upl ++ serial_nodes upl) := by
      rw [root_node,no_node,append_nil,stage]
      rfl
    rw [if_pos none_given,whole]
    simp [unless_missing,eq_comm]
  · rw [if_neg none_given]
    simp [unless_missing,eq_comm]

theorem tree_written {upl : Upl} {tree : Node} : upl_create_handoff_tree upl = .ok tree ↔ Written upl ∧ tree = root_node upl := by
  have start : add_root_props upl (empty_node []) = stage upl [] := rfl
  have options := fun result => @options_written upl (stage upl []) result
  unfold upl_create_handoff_tree upl_write_handoff
  simp only [start,stage_children,map_nil,not_mem_nil,if_false] at options ⊢
  constructor
  · intro done
    obtain ⟨r1,first,done⟩ := bind_ok.mp done
    obtain ⟨-,given,few,rfl⟩ := (options r1).mp first
    rw [stage_push] at done
    obtain ⟨r2,memory,done⟩ := bind_ok.mp done
    obtain ⟨regions,apart,rfl⟩ := (memory_stage upl r2).mp memory
    obtain ⟨r3,memmap,done⟩ := bind_ok.mp done
    obtain ⟨r4,memres,done⟩ := bind_ok.mp done
    obtain ⟨writable,reserved,rfl⟩ := (map_stage upl r4).mp (bind_ok.mpr ⟨r3,memmap,memres⟩)
    obtain ⟨r5,serial,done⟩ := bind_ok.mp done
    obtain ⟨regs,rfl⟩ := (serial_stage upl r5).mp serial
    exact ⟨⟨given,few,regions,apart,writable,reserved,regs⟩,(graphics_end upl _).mp done⟩
  · rintro ⟨⟨given,few,regions,apart,writable,reserved,regs⟩,done⟩
    have first := (options _).mpr ⟨id,given,few,rfl⟩
    have memory := (memory_stage upl _).mpr ⟨regions,apart,rfl⟩
    obtain ⟨r3,memmap,memres⟩ := bind_ok.mp ((map_stage upl _).mpr ⟨writable,reserved,rfl⟩)
    have serial := (serial_stage upl _).mpr ⟨regs,rfl⟩
    refine bind_ok.mpr ⟨_,first,bind_ok.mpr ⟨_,memory,bind_ok.mpr ⟨_,memmap,bind_ok.mpr ⟨_,memres,bind_ok.mpr ⟨_,serial,?_⟩⟩⟩⟩⟩
    exact (graphics_end upl _).mpr done

/-! ## The tree read back -/

theorem matches_at_iff {node : Node} {base other : List Char} {addr : UInt64} (name : node.name = node_name base addr)
    (free : '@' ∉ base) (free_other : '@' ∉ other) : node_matches_at node other = true ↔ base = other := by
  unfold node_matches_at
  rw [decide_eq_true_iff,name]
  constructor
  · rintro ⟨⟨rest,split⟩,mark⟩
    rw [← split,drop_left] at mark
    obtain ⟨tail,rfl⟩ : ∃ tail, rest = '@' :: tail := by
      cases rest with
      | nil => simp at mark
      | cons c tail => exact ⟨tail,by simpa using mark⟩
    have whole := front_of_name free addr
    rw [← split,takeWhile_append_of_pos] at whole
    · simpa using whole.symm
    · intro c member
      have : c ≠ '@' := fun same => free_other (same ▸ member)
      simpa using this
  · rintro rfl
    exact ⟨⟨_,rfl⟩,by simp [node_name]⟩

theorem marked_ne {base other : List Char} (free : '@' ∉ other) (addr : UInt64) : node_name base addr ≠ other := by
  intro same
  apply free
  rw [← same]
  simp [node_name]

theorem decode_memory_node (stack : ℕ → UplImage) (upl read : Upl) (mem : UplMem) :
    decode_node stack read (memory_node upl mem) = decode_upl_memory_node read (memory_node upl mem) := by
  have name := memory_name upl mem
  have other : (memory_node upl mem).name ≠ UPLN_OPTIONS := name ▸ marked_ne (by decide) _
  have here := (matches_at_iff name (by decide) (by decide)).mpr (rfl : UPLN_MEMORY = UPLN_MEMORY)
  unfold decode_node
  rw [if_neg other,if_pos here]

theorem decode_serial_node (stack : ℕ → UplImage) (upl read : Upl) (compatible : CString) :
    decode_node stack read (serial_node upl compatible) = decode_upl_serial read (serial_node upl compatible) := by
  have name := serial_name upl compatible
  have other : ∀ fixed, '@' ∉ fixed → (serial_node upl compatible).name ≠ fixed := fun fixed free => name ▸ marked_ne free _
  have no_memory : ¬ node_matches_at (serial_node upl compatible) UPLN_MEMORY = true := by
    rw [matches_at_iff name (by decide) (by decide)]
    decide
  have here := (matches_at_iff name (by decide) (by decide)).mpr (rfl : UPLN_SERIAL = UPLN_SERIAL)
  unfold decode_node
  rw [if_neg (other _ (by decide)),if_neg no_memory,if_neg (other _ (by decide)),if_neg (other _ (by decide)),if_pos here]

theorem decode_graphics_node (stack : ℕ → UplImage) (upl read : Upl) :
    decode_node stack read (graphics_node upl) = decode_upl_graphics read (graphics_node upl) := by
  have name := graphics_name upl
  have other : ∀ fixed, '@' ∉ fixed → (graphics_node upl).name ≠ fixed := fun fixed free => name ▸ marked_ne free _
  have unlike : ∀ base, '@' ∉ base → UPLN_GRAPHICS ≠ base → ¬ node_matches_at (graphics_node upl) base = true := by
    intro base free differ
    rwa [matches_at_iff name (by decide) free]
  have here := (matches_at_iff name (by decide) (by decide)).mpr (rfl : UPLN_GRAPHICS = UPLN_GRAPHICS)
  unfold decode_node
  rw [if_neg (other _ (by decide)),if_neg (unlike _ (by decide) (by decide)),if_neg (other _ (by decide)),
    if_neg (other _ (by decide)),if_neg (unlike _ (by decide) (by decide)),if_pos here]

theorem decode_memmaps_node (stack : ℕ → UplImage) (upl read : Upl) :
    decode_node stack read (memmaps_node upl) = decode_upl_memmap read (memmaps_node upl) := rfl

theorem decode_memress_node (stack : ℕ → UplImage) (upl read : Upl) :
    decode_node stack read (memress_node upl) = decode_upl_memres read (memress_node upl) := rfl

section
variable {upl : Upl} (addr : OneOrTwo upl.addr_cells) (size : OneOrTwo upl.size_cells)
include addr size

theorem memories_read (stack : ℕ → UplImage) {read : Upl} (same : SameCells upl read) (mems : List UplMem) (result : Upl) :
    (mems.map (memory_node upl)).foldlM (decode_node stack) read = .ok result ↔
      result = {read with mem := read.mem ++ mems.map (memory_back upl)} := by
  induction mems generalizing read with
  | nil => simp [pure,Except.pure,eq_comm]
  | cons mem mems ih =>
    have first := memory_read same addr size mem
    rw [map_cons,foldlM_cons,decode_memory_node,first]
    have rest := @ih {read with mem := read.mem ++ [memory_back upl mem]} same
    simp only [append_assoc,singleton_append] at rest
    exact rest

theorem memmaps_read {read : Upl} (same : SameCells upl read) (memmaps : List UplMemmap) (result : Upl) :
    (memmaps.map (memmap_node upl)).foldlM decode_memmap_node read = .ok result ↔
      (∀ memmap ∈ memmaps, memmap.usage ≠ 0 → memmap.usage.toNat%2^6 ≠ 0) ∧
      result = {read with memmap := read.memmap ++ memmaps.map (memmap_back upl)} := by
  induction memmaps generalizing read with
  | nil => simp [pure,Except.pure,eq_comm]
  | cons memmap memmaps ih =>
    rw [map_cons,foldlM_cons,bind_ok,forall_mem_cons]
    simp only [memmap_read same addr size memmap]
    have rest := @ih {read with memmap := read.memmap ++ [memmap_back upl memmap]} same
    simp only [append_assoc,singleton_append] at rest
    constructor
    · rintro ⟨_,⟨named,rfl⟩,done⟩
      obtain ⟨all_named,whole⟩ := rest.mp done
      exact ⟨⟨named,all_named⟩,whole⟩
    · rintro ⟨⟨named,all_named⟩,whole⟩
      exact ⟨_,⟨named,rfl⟩,rest.mpr ⟨all_named,whole⟩⟩

theorem memress_read {read : Upl} (same : SameCells upl read) (memress : List UplMemres) (result : Upl) :
    (memress.map (memres_node upl)).foldlM decode_memres_node read = .ok result ↔
      result = {read with memres := read.memres ++ memress.map (memres_back upl)} := by
  induction memress generalizing read with
  | nil => simp [pure,Except.pure,eq_comm]
  | cons memres memress ih =>
    have first := memres_read same addr size memres
    rw [map_cons,foldlM_cons,first]
    have rest := @ih {read with memres := read.memres ++ [memres_back upl memres]} same
    simp only [append_assoc,singleton_append] at rest
    exact rest

theorem map_read (stack : ℕ → UplImage) {read : Upl} (same : SameCells upl read) (no_memmap : read.memmap = [])
    (no_memres : read.memres = []) (result : Upl) :
    (map_nodes upl).foldlM (decode_node stack) read = .ok result ↔
      (∀ memmap ∈ upl.memmap, memmap.usage ≠ 0 → memmap.usage.toNat%2^6 ≠ 0) ∧
      result = {read with memmap := upl.memmap.map (memmap_back upl),
                          memres := if upl.memmap = [] then [] else upl.memres.map (memres_back upl)} := by
  unfold map_nodes
  by_cases empty : upl.memmap = []
  · have unchanged : {read with memmap := [], memres := []} = read := by rw [← no_memmap,← no_memres]
    rw [if_pos empty,if_pos empty,empty,map_nil,unchanged]
    simp [pure,Except.pure,eq_comm]
  rw [if_neg empty,if_neg empty,foldlM_cons,bind_ok]
  simp only [decode_memmaps_node,foldlM_cons,foldlM_nil,bind_pure,decode_memress_node]
  have first := fun result => memmaps_read addr size same upl.memmap result
  have second := memress_read addr size (show SameCells upl {read with memmap := read.memmap ++ upl.memmap.map (memmap_back upl)} from same)
    upl.memres result
  rw [no_memmap] at first second
  simp only [nil_append,no_memres] at first second
  constructor
  · rintro ⟨_,memmaps,done⟩
    obtain ⟨named,rfl⟩ := (first _).mp memmaps
    exact ⟨named,second.mp done⟩
  · rintro ⟨named,whole⟩
    exact ⟨_,(first _).mpr ⟨named,rfl⟩,second.mpr whole⟩

end

structure Readable (upl : Upl) : Prop where
  bootmode : upl.bootmode.toNat%2^12 ≠ 0
  fit : upl.fit ≠ 0
  one_cell : upl.addr_cells = 1
  conf_offset : upl.conf_offset ≠ 0
  usage : ∀ memmap ∈ upl.memmap, memmap.usage ≠ 0 → memmap.usage.toNat%2^6 ≠ 0
  serial : upl.serial.compatible ≠ none → upl.size_cells = 1

def upl_back (upl : Upl) (stack : ℕ → UplImage) : Upl :=
  {addr_cells := upl.addr_cells, size_cells := upl.size_cells, smbios := held upl.addr_cells upl.smbios,
   acpi := held upl.addr_cells upl.acpi, bootmode := .ofNat (upl.bootmode.toNat%2^12), fit := held upl.addr_cells upl.fit,
   conf_offset := upl.conf_offset, addr_width := upl.addr_width, acpi_nvs_size := upl.acpi_nvs_size,
   image := upl.image.zipIdx.map (image_back upl stack), mem := upl.mem.map (memory_back upl),
   memmap := upl.memmap.map (memmap_back upl), memres := if upl.memmap = [] then [] else upl.memres.map (memres_back upl),
   serial := if upl.serial.compatible = none then no_serial else serial_back upl,
   graphics := if upl.graphics.reg = [] then no_graphics else graphics_back upl}

theorem root_props_read (upl : Upl) (children : List Node) :
    decode_root_props upl_init (stage upl children) =
      .ok {upl_init with addr_cells := upl.addr_cells, size_cells := upl.size_cells} := by
  have addr : ofnode_read_prop (stage upl children) "#address-cells" = some (big 4 upl.addr_cells.toNat) := by
    simp [stage,add_root_props,ofnode_write_u32,read_other]
  have size : ofnode_read_prop (stage upl children) "#size-cells" = some (big 4 upl.size_cells.toNat) := by
    simp [stage,add_root_props,ofnode_write_u32]
  unfold decode_root_props
  simp only [read_uint_held addr,read_uint_held size,bind,Except.bind]

theorem options_node_read {upl read : Upl} (same : SameCells upl read) (no_image : read.image = []) (stack : ℕ → UplImage)
    (given : ∀ img ∈ upl.image, img.description ≠ none) (result : Upl) :
    decode_node stack read (options_node upl) = .ok result ↔
      (upl.bootmode.toNat%2^12 ≠ 0 ∧ upl.fit ≠ 0 ∧ upl.addr_cells = 1 ∧ upl.conf_offset ≠ 0) ∧
      result = images_back upl stack (params_back upl read) := by
  have params : ofnode_find_subnode (options_node upl) UPLN_UPL_PARAMS = some (params_node upl) := by
    simp [ofnode_find_subnode,options_node,ofnode_name_eq_unit,params_name]
  have images : ofnode_find_subnode (options_node upl) UPLN_UPL_IMAGE = some (images_node upl) := by
    have apart : UPLN_UPL_PARAMS ≠ UPLN_UPL_IMAGE := by decide
    have unmarked : '@' ∉ UPLN_UPL_PARAMS := by decide
    simp [ofnode_find_subnode,options_node,ofnode_name_eq_unit,params_name,images_name,apart,unmarked]
  have dispatch : decode_node stack read (options_node upl) = (do
      let upl' ← decode_upl_params read (options_node upl)
      decode_upl_images upl' stack (options_node upl)) := if_pos rfl
  have images_part := @options_read upl (params_back upl read) same result (options_node upl) no_image stack given images
  rw [dispatch,bind_ok]
  simp only [params_read same params]
  constructor
  · rintro ⟨between,⟨named,rfl⟩,done⟩
    obtain ⟨fit,one,conf,whole⟩ := images_part.mp done
    exact ⟨⟨named,fit,one,conf⟩,whole⟩
  · rintro ⟨⟨named,fit,one,conf⟩,whole⟩
    exact ⟨_,⟨named,rfl⟩,images_part.mpr ⟨fit,one,conf,whole⟩⟩

section
variable {upl : Upl} (addr : OneOrTwo upl.addr_cells) (size : OneOrTwo upl.size_cells)
include addr size

theorem serials_read (stack : ℕ → UplImage) {read : Upl} (same : SameCells upl read) (zero : read.serial = no_serial)
    (regs : upl.serial.compatible ≠ none → upl.serial.reg ≠ []) (result : Upl) :
    (serial_nodes upl).foldlM (decode_node stack) read = .ok result ↔
      (upl.serial.compatible ≠ none → upl.addr_cells = 1 ∧ upl.size_cells = 1) ∧
      result = {read with serial := if upl.serial.compatible = none then no_serial else serial_back upl} := by
  unfold serial_nodes
  cases given : upl.serial.compatible with
  | none =>
    have unchanged : {read with serial := no_serial} = read := by rw [← zero]
    simp [unchanged,pure,Except.pure,eq_comm]
  | some compatible =>
    have virtual : read.serial.virtual_reg = 0 := by rw [zero]; rfl
    have one := @serial_read upl read same addr size result compatible given (regs (by simp [given])) virtual
    simp only [map_some,toList_some,foldlM_cons,foldlM_nil,bind_pure,decode_serial_node]
    rw [one,if_neg (by simp)]
    simp

theorem displays_read (stack : ℕ → UplImage) {read : Upl} (same : SameCells upl read) (zero : read.graphics = no_graphics)
    (result : Upl) :
    (graphics_nodes upl).foldlM (decode_node stack) read = .ok result ↔
      result = {read with graphics := if upl.graphics.reg = [] then no_graphics else graphics_back upl} := by
  unfold graphics_nodes
  by_cases none_given : upl.graphics.reg = []
  · have unchanged : {read with graphics := no_graphics} = read := by rw [← zero]
    rw [if_pos none_given,if_pos none_given,unchanged]
    simp [pure,Except.pure,eq_comm]
  · rw [if_neg none_given,if_neg none_given]
    simp only [foldlM_cons,foldlM_nil,bind_pure,decode_graphics_node,graphics_read same addr size,
      Except.ok.injEq]
    exact eq_comm

theorem tree_read (stack : ℕ → UplImage) (written : Written upl) (result : Upl) :
    upl_read_handoff stack (root_node upl) = .ok result ↔ Readable upl ∧ result = upl_back upl stack := by
  have root : root_node upl = stage upl (options_node upl :: upl.mem.map (memory_node upl) ++ map_nodes upl ++ serial_nodes upl ++
      graphics_nodes upl) := rfl
  unfold upl_read_handoff
  rw [root,root_props_read,stage_children]
  simp only [bind,Except.bind]
  rw [cons_append,cons_append,cons_append,foldlM_cons,bind_ok]
  simp only [append_assoc,foldlM_append]
  constructor
  · rintro ⟨_,options,done⟩
    obtain ⟨⟨bootmode,fit,one,conf⟩,rfl⟩ := (options_node_read (by exact ⟨rfl,rfl⟩) (by rfl) stack written.descriptions _).mp options
    obtain ⟨_,memory,done⟩ := bind_ok.mp done
    obtain ⟨_,maps,done⟩ := bind_ok.mp done
    obtain ⟨_,serial,display⟩ := bind_ok.mp done
    have memory_eq := (memories_read addr size stack (by exact ⟨rfl,rfl⟩) upl.mem _).mp memory
    subst memory_eq
    obtain ⟨usage,maps_eq⟩ := (map_read addr size stack (by exact ⟨rfl,rfl⟩) (by rfl) (by rfl) _).mp maps
    subst maps_eq
    obtain ⟨ones,serial_eq⟩ := (serials_read addr size stack (by exact ⟨rfl,rfl⟩) (by rfl) written.serial _).mp serial
    subst serial_eq
    have whole := (displays_read addr size stack (by exact ⟨rfl,rfl⟩) (by rfl) _).mp display
    exact ⟨⟨bootmode,fit,one,conf,usage,fun given => (ones given).2⟩,whole⟩
  · rintro ⟨⟨bootmode,fit,one,conf,usage,size_one⟩,whole⟩
    refine ⟨_,(options_node_read (by exact ⟨rfl,rfl⟩) (by rfl) stack written.descriptions _).mpr ⟨⟨bootmode,fit,one,conf⟩,rfl⟩,?_⟩
    refine bind_ok.mpr ⟨_,(memories_read addr size stack (by exact ⟨rfl,rfl⟩) upl.mem _).mpr rfl,?_⟩
    refine bind_ok.mpr ⟨_,(map_read addr size stack (by exact ⟨rfl,rfl⟩) (by rfl) (by rfl) _).mpr ⟨usage,rfl⟩,?_⟩
    refine bind_ok.mpr ⟨_,(serials_read addr size stack (by exact ⟨rfl,rfl⟩) (by rfl) written.serial _).mpr ⟨?_,rfl⟩,?_⟩
    · intro given
      exact ⟨one,size_one given⟩
    · exact (displays_read addr size stack (by exact ⟨rfl,rfl⟩) (by rfl) _).mpr whole

end

/-! ## The round trip -/

def same_memmap (base cmp : UplMemmap) : Prop :=
  check_device_name base.name cmp.name ∧ base.region = cmp.region ∧ base.usage = cmp.usage

def same_memres (base cmp : UplMemres) : Prop :=
  check_device_name base.name cmp.name ∧ base.region = cmp.region ∧ base.no_map = cmp.no_map

/-- `compare_upl` of the unit test, with the lists of registers compared as a whole. -/
structure SameUpl (base cmp : Upl) : Prop where
  addr_cells : base.addr_cells = cmp.addr_cells
  size_cells : base.size_cells = cmp.size_cells
  smbios : base.smbios = cmp.smbios
  acpi : base.acpi = cmp.acpi
  bootmode : base.bootmode = cmp.bootmode
  fit : base.fit = cmp.fit
  conf_offset : base.conf_offset = cmp.conf_offset
  addr_width : base.addr_width = cmp.addr_width
  acpi_nvs_size : base.acpi_nvs_size = cmp.acpi_nvs_size
  image : base.image = cmp.image
  mem : base.mem = cmp.mem
  memmap : List.Forall₂ same_memmap base.memmap cmp.memmap
  memres : List.Forall₂ same_memres base.memres cmp.memres
  serial : base.serial = cmp.serial
  graphics : base.graphics = cmp.graphics

/-- The structure is read back from its tree, whatever was on the stack. -/
def HandedOver (upl : Upl) : Prop :=
  ∀ stack, ∃ tree read, upl_create_handoff_tree upl = .ok tree ∧ upl_read_handoff stack tree = .ok read ∧ SameUpl upl read

/-- Entries of the memory map, or of the reserved memory, that can be told apart after their
    names were cut at the unit address. -/
structure PortableEntries {α : Type} (upl : Upl) (name : α → List Char) (region : α → List Memregion) (entries : List α) : Prop where
  regions : ∀ entry ∈ entries, region entry ≠ [] ∧ RegionsFit upl (region entry)
  unmarked : ∀ entry ∈ entries, '@' ∉ name entry
  room : ∀ entry ∈ entries, (name entry).length+3+(Nat.toDigits 16 (first_base (region entry)).toNat).length < 26
  apart : (entries.map fun entry => (name entry,first_base (region entry))).Nodup

structure Portable (upl : Upl) : Prop where
  addr_cells : upl.addr_cells = 1
  smbios : upl.smbios.toNat < 2^32
  acpi : upl.acpi.toNat < 2^32
  bootmode : upl.bootmode ≠ 0 ∧ upl.bootmode.toNat < 2^12
  fit : upl.fit ≠ 0 ∧ upl.fit.toNat < 2^32
  conf_offset : upl.conf_offset ≠ 0
  few_images : upl.image.length < 1000
  image : ∀ img ∈ upl.image, Fits upl.addr_cells img.load ∧ Fits upl.size_cells img.size ∧ img.offset ≠ 0 ∧ img.description ≠ none
  mem : ∀ mem ∈ upl.mem, mem.region ≠ [] ∧ RegionsFit upl mem.region
  mem_apart : (upl.mem.map fun mem => first_base mem.region).Nodup
  memmap : PortableEntries upl UplMemmap.name UplMemmap.region upl.memmap
  usage : ∀ memmap ∈ upl.memmap, memmap.usage.toNat < 2^6
  memres : PortableEntries upl UplMemres.name UplMemres.region upl.memres
  memres_with_map : upl.memmap = [] → upl.memres = []
  serial : upl.serial = no_serial ∨ upl.serial.compatible ≠ none ∧ upl.size_cells = 1 ∧ upl.serial.reg.length = 1 ∧
    RegionsFit upl upl.serial.reg ∧ Fits upl.addr_cells upl.serial.virtual_reg
  graphics : upl.graphics = no_graphics ∨ upl.graphics.reg.length = 1 ∧ RegionsFit upl upl.graphics.reg

theorem images_kept_iff (upl : Upl) : (∀ stack, upl.image = upl.image.zipIdx.map (image_back upl stack)) ↔
    ∀ img ∈ upl.image, Fits upl.addr_cells img.load ∧ Fits upl.size_cells img.size ∧ img.offset ≠ 0 := by
  have one : ∀ stack, upl.image = upl.image.zipIdx.map (image_back upl stack) ↔
      ∀ i, (inside : i < upl.image.length) → upl.image[i] = image_back upl stack (upl.image[i],i) := by
    intro stack
    constructor
    · intro same i inside
      have := getElem_of_eq same inside
      simpa using this
    · intro each
      apply ext_getElem
      · simp
      · intro i inside _
        simpa using each i inside
  simp only [one]
  constructor
  · intro kept img member
    obtain ⟨i,inside,rfl⟩ := getElem_of_mem member
    have same := kept (fun _ => ⟨0,0,1,none⟩) i inside
    refine ⟨(held_eq_iff _ _).mp (congrArg UplImage.load same).symm,(held_eq_iff _ _).mp (congrArg UplImage.size same).symm,?_⟩
    intro zero
    have offset := congrArg UplImage.offset same
    simp only [image_back,zero,ne_eq,not_true_eq_false,if_false] at offset
    exact absurd offset (by decide)
  · intro fits stack i inside
    obtain ⟨load,size,offset⟩ := fits _ (getElem_mem inside)
    simp [image_back,(held_eq_iff _ _).mpr load,(held_eq_iff _ _).mpr size,offset]

theorem memmap_kept_iff (upl : Upl) (memmap : UplMemmap) : same_memmap memmap (memmap_back upl memmap) ↔
    '@' ∉ memmap.name ∧ RegionsFit upl memmap.region ∧ memmap.usage.toNat < 2^6 := by
  have mask := @mask_kept_iff usage_names (by decide) memmap.usage
  unfold same_memmap memmap_back
  rw [device_name_iff,regions_kept_iff,eq_comm]
  exact and_congr Iff.rfl (and_congr Iff.rfl mask)

theorem memres_kept_iff (upl : Upl) (memres : UplMemres) : same_memres memres (memres_back upl memres) ↔
    '@' ∉ memres.name ∧ RegionsFit upl memres.region := by
  unfold same_memres memres_back
  rw [device_name_iff,regions_kept_iff]
  simp

theorem memories_kept_iff (upl : Upl) : upl.mem = upl.mem.map (memory_back upl) ↔ ∀ mem ∈ upl.mem, RegionsFit upl mem.region := by
  have one : ∀ mem, memory_back upl mem = mem ↔ RegionsFit upl mem.region := by
    intro mem
    rw [← regions_kept_iff]
    unfold memory_back
    constructor
    · intro same
      exact (congrArg UplMem.region same).symm
    · intro same
      rw [← same]
  constructor
  · intro same mem member
    obtain ⟨i,inside,rfl⟩ := getElem_of_mem member
    have here := getElem_of_eq same inside
    rw [getElem_map] at here
    exact (one _).mp here.symm
  · intro fits
    have : upl.mem.map (memory_back upl) = upl.mem.map id := map_congr_left fun mem member => (one mem).mpr (fits mem member)
    rw [this,List.map_id]

theorem first_kept_iff (upl : Upl) {reg : List Memregion} (some_given : reg ≠ []) :
    reg = (reg.take 1).map (held_region upl) ↔ reg.length = 1 ∧ RegionsFit upl reg := by
  obtain ⟨first,rest,rfl⟩ := exists_cons_of_ne_nil some_given
  rw [take_succ_cons,take_zero]
  constructor
  · intro same
    have short : (first :: rest).length = 1 := by rw [same]; rfl
    have empty : rest = [] := by simpa using short
    subst empty
    exact ⟨rfl,(regions_kept_iff upl _).mp same⟩
  · rintro ⟨short,fits⟩
    have empty : rest = [] := by simpa using short
    subst empty
    exact (regions_kept_iff upl _).mpr fits

theorem writable_iff {α : Type} {upl : Upl} {name : α → List Char} {region : α → List Memregion} {entries : List α}
    (unmarked : ∀ entry ∈ entries, '@' ∉ name entry) (fits : ∀ entry ∈ entries, RegionsFit upl (region entry)) :
    Writable name region entries ↔ PortableEntries upl name region entries := by
  have distinct : (entries.map fun entry => node_name (name entry) (first_base (region entry))).Nodup ↔
      (entries.map fun entry => (name entry,first_base (region entry))).Nodup := by
    have together : (entries.map fun entry => node_name (name entry) (first_base (region entry))) =
        (entries.map fun entry => (name entry,first_base (region entry))).map fun pair => node_name pair.1 pair.2 := by
      rw [List.map_map]
      rfl
    rw [together]
    constructor
    · intro nodup
      exact nodup.of_map
    · intro nodup
      apply nodup.map_on
      intro one member_one other member_other same
      obtain ⟨e,there,rfl⟩ := List.mem_map.mp member_one
      obtain ⟨f,there_f,rfl⟩ := List.mem_map.mp member_other
      obtain ⟨names,bases⟩ := (node_name_inj (unmarked e there) (unmarked f there_f)).mp same
      exact Prod.ext names bases
  constructor
  · rintro ⟨regions,room,apart⟩
    refine ⟨fun entry member => ⟨regions entry member,fits entry member⟩,unmarked,?_,distinct.mp apart⟩
    intro entry member
    rw [← node_name_length]
    exact room entry member
  · rintro ⟨regions,-,room,apart⟩
    refine ⟨fun entry member => (regions entry member).1,?_,distinct.mpr apart⟩
    intro entry member
    rw [node_name_length]
    exact room entry member

theorem serial_kept_iff {upl : Upl} (regs : upl.serial.compatible ≠ none → upl.serial.reg ≠ []) :
    upl.serial = (if upl.serial.compatible = none then no_serial else serial_back upl) ↔
      upl.serial = no_serial ∨ upl.serial.compatible ≠ none ∧ upl.serial.reg.length = 1 ∧ RegionsFit upl upl.serial.reg ∧
        Fits upl.addr_cells upl.serial.virtual_reg := by
  by_cases absent : upl.serial.compatible = none
  · rw [if_pos absent]
    simp [absent]
  have differ : upl.serial ≠ no_serial := by
    intro same
    exact absent (by rw [same]; rfl)
  have kept : upl.serial = serial_back upl ↔ upl.serial.reg = (upl.serial.reg.take 1).map (held_region upl) ∧
      held upl.addr_cells upl.serial.virtual_reg = upl.serial.virtual_reg := by
    unfold serial_back
    constructor
    · intro same
      exact ⟨congrArg UplSerial.reg same,(congrArg UplSerial.virtual_reg same).symm⟩
    · rintro ⟨reg,virtual⟩
      rw [virtual,← reg]
  rw [if_neg absent,kept,first_kept_iff upl (regs absent),held_eq_iff,and_assoc]
  simp [differ,absent]

theorem graphics_kept_iff (upl : Upl) :
    upl.graphics = (if upl.graphics.reg = [] then no_graphics else graphics_back upl) ↔
      upl.graphics = no_graphics ∨ upl.graphics.reg.length = 1 ∧ RegionsFit upl upl.graphics.reg := by
  by_cases absent : upl.graphics.reg = []
  · rw [if_pos absent]
    simp [absent]
  have differ : upl.graphics ≠ no_graphics := by
    intro same
    exact absent (by rw [same]; rfl)
  have kept : upl.graphics = graphics_back upl ↔ upl.graphics.reg = (upl.graphics.reg.take 1).map (held_region upl) := by
    unfold graphics_back
    constructor
    · intro same
      exact congrArg UplGraphics.reg same
    · intro reg
      rw [← reg]
  rw [if_neg absent,kept,first_kept_iff upl absent]
  simp [differ]

theorem handed_over_iff {upl : Upl} (addr : OneOrTwo upl.addr_cells) (size : OneOrTwo upl.size_cells) :
    HandedOver upl ↔ Written upl ∧ Readable upl ∧ ∀ stack, SameUpl upl (upl_back upl stack) := by
  constructor
  · intro handed
    have each : ∀ stack, Written upl ∧ Readable upl ∧ SameUpl upl (upl_back upl stack) := by
      intro stack
      obtain ⟨tree,read,made,got,same⟩ := handed stack
      obtain ⟨written,rfl⟩ := tree_written.mp made
      obtain ⟨readable,rfl⟩ := (tree_read addr size stack written read).mp got
      exact ⟨written,readable,same⟩
    obtain ⟨written,readable,-⟩ := each fun _ => ⟨0,0,0,none⟩
    exact ⟨written,readable,fun stack => (each stack).2.2⟩
  · rintro ⟨written,readable,same⟩ stack
    exact ⟨_,_,tree_written.mpr ⟨written,rfl⟩,(tree_read addr size stack written _).mpr ⟨readable,rfl⟩,same stack⟩

theorem fits_one {count : UInt32} (one : count = 1) (value : UInt64) : Fits count value ↔ value.toNat < 2^32 := by
  simp [Fits,one]

theorem mask_some {mask : UInt32} (named : mask.toNat < 2^12) : mask.toNat%2^12 ≠ 0 ↔ mask ≠ 0 := by
  rw [Nat.mod_eq_of_lt named]
  constructor
  · rintro differ rfl
    exact differ rfl
  · intro differ zero
    exact differ (UInt32.toNat_inj.mp zero)

theorem boot_mask_kept_iff (mask : UInt32) : UInt32.ofNat (mask.toNat%2^12) = mask ↔ mask.toNat < 2^12 :=
  @mask_kept_iff bootmode_names (by decide) mask

theorem portable_of_same {upl : Upl} (written : Written upl) (readable : Readable upl)
    (all_same : ∀ stack, SameUpl upl (upl_back upl stack)) : Portable upl := by
  have same := all_same fun _ => ⟨0,0,0,none⟩
  have one := readable.one_cell
  have named : upl.bootmode.toNat < 2^12 := (boot_mask_kept_iff _).mp same.bootmode.symm
  have fits := (images_kept_iff upl).mp fun stack => (all_same stack).image
  have mems := (memories_kept_iff upl).mp same.mem
  have memmaps : ∀ memmap ∈ upl.memmap, '@' ∉ memmap.name ∧ RegionsFit upl memmap.region ∧ memmap.usage.toNat < 2^6 := by
    intro memmap member
    exact (memmap_kept_iff upl memmap).mp (forall₂_same.mp (forall₂_map_right_iff.mp same.memmap) memmap member)
  have memres_empty : upl.memmap = [] → upl.memres = [] := by
    intro empty
    have lists := same.memres
    simp only [upl_back,if_pos empty] at lists
    exact forall₂_nil_right_iff.mp lists
  have memress : ∀ memres ∈ upl.memres, '@' ∉ memres.name ∧ RegionsFit upl memres.region := by
    intro memres member
    have mapped : upl.memmap ≠ [] := fun empty => ne_nil_of_mem member (memres_empty empty)
    have lists := same.memres
    simp only [upl_back,if_neg mapped] at lists
    exact (memres_kept_iff upl memres).mp (forall₂_same.mp (forall₂_map_right_iff.mp lists) memres member)
  have reserved : PortableEntries upl UplMemres.name UplMemres.region upl.memres := by
    by_cases empty : upl.memmap = []
    · rw [memres_empty empty]
      exact ⟨by simp,by simp,by simp,by simp⟩
    · exact (writable_iff (fun memres member => (memress memres member).1) fun memres member => (memress memres member).2).mp
        (written.memres empty)
  refine ⟨one,?_,?_,?_,?_,readable.conf_offset,written.few_images,?_,?_,written.apart,?_,?_,reserved,memres_empty,?_,?_⟩
  · exact (fits_one one _).mp ((held_eq_iff _ _).mp same.smbios.symm)
  · exact (fits_one one _).mp ((held_eq_iff _ _).mp same.acpi.symm)
  · exact ⟨(mask_some named).mp readable.bootmode,named⟩
  · exact ⟨readable.fit,(fits_one one _).mp ((held_eq_iff _ _).mp same.fit.symm)⟩
  · intro img member
    obtain ⟨load,length,offset⟩ := fits img member
    exact ⟨load,length,offset,written.descriptions img member⟩
  · intro mem member
    exact ⟨written.regions mem member,mems mem member⟩
  · exact (writable_iff (fun memmap member => (memmaps memmap member).1) fun memmap member => (memmaps memmap member).2.1).mp
      written.memmap
  · intro memmap member
    exact (memmaps memmap member).2.2
  · obtain none_given | ⟨given,rest⟩ := (serial_kept_iff written.serial).mp same.serial
    · exact .inl none_given
    · exact .inr ⟨given,readable.serial given,rest⟩
  · exact (graphics_kept_iff upl).mp same.graphics

theorem serial_regs {upl : Upl} (portable : Portable upl) : upl.serial.compatible ≠ none → upl.serial.reg ≠ [] := by
  intro given
  obtain none_given | ⟨-,-,length,-⟩ := portable.serial
  · exact absurd (by rw [none_given]; rfl) given
  · exact ne_nil_of_length_pos (by omega)

theorem written_of_portable {upl : Upl} (portable : Portable upl) : Written upl := by
  have writable := (writable_iff portable.memmap.unmarked fun memmap member => (portable.memmap.regions memmap member).2).mpr
    portable.memmap
  have reserved := (writable_iff portable.memres.unmarked fun memres member => (portable.memres.regions memres member).2).mpr
    portable.memres
  refine ⟨?_,portable.few_images,?_,portable.mem_apart,writable,fun _ => reserved,serial_regs portable⟩
  · intro img member
    exact (portable.image img member).2.2.2
  · intro mem member
    exact (portable.mem mem member).1

theorem readable_of_portable {upl : Upl} (portable : Portable upl) : Readable upl := by
  refine ⟨?_,portable.fit.1,portable.addr_cells,portable.conf_offset,?_,?_⟩
  · exact (mask_some portable.bootmode.2).mpr portable.bootmode.1
  · intro memmap member used
    rw [Nat.mod_eq_of_lt (portable.usage memmap member)]
    intro zero
    exact used (UInt32.toNat_inj.mp zero)
  · intro given
    obtain none_given | ⟨-,size_one,-⟩ := portable.serial
    · exact absurd (by rw [none_given]; rfl) given
    · exact size_one

theorem same_of_portable {upl : Upl} (portable : Portable upl) (stack : ℕ → UplImage) : SameUpl upl (upl_back upl stack) := by
  have one := portable.addr_cells
  refine ⟨rfl,rfl,?_,?_,?_,?_,rfl,rfl,rfl,?_,?_,?_,?_,?_,?_⟩
  · exact ((held_eq_iff _ _).mpr ((fits_one one _).mpr portable.smbios)).symm
  · exact ((held_eq_iff _ _).mpr ((fits_one one _).mpr portable.acpi)).symm
  · exact ((boot_mask_kept_iff _).mpr portable.bootmode.2).symm
  · exact ((held_eq_iff _ _).mpr ((fits_one one _).mpr portable.fit.2)).symm
  · refine (images_kept_iff upl).mpr ?_ stack
    intro img member
    obtain ⟨load,length,offset,-⟩ := portable.image img member
    exact ⟨load,length,offset⟩
  · refine (memories_kept_iff upl).mpr ?_
    intro mem member
    exact (portable.mem mem member).2
  · refine forall₂_map_right_iff.mpr (forall₂_same.mpr ?_)
    intro memmap member
    exact (memmap_kept_iff upl memmap).mpr ⟨portable.memmap.unmarked memmap member,
      (portable.memmap.regions memmap member).2,portable.usage memmap member⟩
  · by_cases empty : upl.memmap = []
    · simp [upl_back,empty,portable.memres_with_map empty]
    · simp only [upl_back,if_neg empty]
      refine forall₂_map_right_iff.mpr (forall₂_same.mpr ?_)
      intro memres member
      exact (memres_kept_iff upl memres).mpr ⟨portable.memres.unmarked memres member,
        (portable.memres.regions memres member).2⟩
  · refine (serial_kept_iff (serial_regs portable)).mpr ?_
    obtain none_given | ⟨given,-,rest⟩ := portable.serial
    · exact .inl none_given
    · exact .inr ⟨given,rest⟩
  · exact (graphics_kept_iff upl).mpr portable.graphics

/-- The handoff is read back as it was if and only if it is portable. -/
theorem read_back_iff_portable {upl : Upl} (addr : OneOrTwo upl.addr_cells) (size : OneOrTwo upl.size_cells) :
    HandedOver upl ↔ Portable upl := by
  rw [handed_over_iff addr size]
  constructor
  · rintro ⟨written,readable,same⟩
    exact portable_of_same written readable same
  · intro portable
    exact ⟨written_of_portable portable,readable_of_portable portable,same_of_portable portable⟩

/-- A structure with an entry in each list, a console and no display. -/
def full_upl : Upl :=
  {addr_cells := 1, size_cells := 1, smbios := 0x123, acpi := 0x456, bootmode := 0x50, fit := 0x789, conf_offset := 0x234,
   addr_width := 46, acpi_nvs_size := 0x100, image := [⟨1,2,3,some ⟨['A','T','F'],by decide⟩⟩],
   mem := [⟨[⟨0x10,0x20⟩,⟨0x30,0x40⟩],true⟩], memmap := [⟨['e','f','i'],[⟨0x23,0x24⟩],16⟩],
   memres := [⟨['m','m','i','o'],[⟨0x2b,0x2c⟩],false⟩],
   serial := ⟨some ⟨['n','s'],by decide⟩,1843200,115200,[⟨0xf1de0000,0x100⟩],2,0x40,1,0x20000000,.mmio⟩,
   graphics := no_graphics}

theorem full_upl_read_back : HandedOver full_upl := by
  refine (read_back_iff_portable (.inl rfl) (.inl rfl)).mpr ?_
  refine ⟨rfl,by decide,by decide,⟨by decide,by decide⟩,⟨by decide,by decide⟩,by decide,by decide,?_,?_,by decide,?_,by decide,?_,
    by decide,.inr ⟨by decide,rfl,rfl,?_,?_⟩,.inl rfl⟩
  · simp [full_upl,Fits]
  · simp [full_upl,RegionsFit,Fits]
  · refine ⟨by simp [full_upl,RegionsFit,Fits],by simp [full_upl],?_,by decide⟩
    intro entry member
    have short : entry.name.length ≤ 3 := by rw [List.mem_singleton.mp member]; decide
    have digits := hex_length (first_base entry.region)
    omega
  · refine ⟨by simp [full_upl,RegionsFit,Fits],by simp [full_upl],?_,by decide⟩
    intro entry member
    have short : entry.name.length ≤ 4 := by rw [List.mem_singleton.mp member]; decide
    have digits := hex_length (first_base entry.region)
    omega
  · simp [full_upl,RegionsFit,Fits]
  · simp [full_upl,Fits]

/-- Without a boot mode the property is not written, and the reader asks for it. -/
theorem no_bootmode_not_read : ¬ HandedOver {full_upl with bootmode := 0} := by
  intro handed
  obtain ⟨tree,read,made,got,-⟩ := handed fun _ => ⟨0,0,0,none⟩
  have failed : (upl_create_handoff_tree {full_upl with bootmode := 0} >>= upl_read_handoff fun _ => ⟨0,0,0,none⟩) =
      .error .EINVAL := by rfl
  rw [bind_ok.mpr ⟨tree,made,got⟩] at failed
  cases failed

end UBoot.UplHandoff
