import Mathlib.Data.List.Nodup
import UBoot.OfNode

/-!
The handoff of the Universal Payload, `boot/upl_write.c` and `boot/upl_read.c`: a structure is
written to a new live tree by `upl_create_handoff_tree` and read back from it by `upl_read_handoff`.
The names of nodes tell their entries apart up to a point (`node_name_inj`).
-/
namespace UBoot.UplHandoff
open UBoot.OfNode List

/-! ## The structure -/

structure UplImage where
  load : UInt64
  size : UInt64
  offset : UInt32
  description : Option CString
deriving DecidableEq

structure Memregion where
  base : UInt64
  size : UInt64
deriving DecidableEq

structure UplMem where
  region : List Memregion
  hotpluggable : Bool
deriving DecidableEq

structure UplMemmap where
  name : List Char
  region : List Memregion
  usage : UInt32
deriving DecidableEq

structure UplMemres where
  name : List Char
  region : List Memregion
  no_map : Bool
deriving DecidableEq

/-- `enum upl_serial_access_type`: `UPLSAT_MMIO` and `UPLSAT_IO`. -/
inductive AccessType where
  | mmio
  | io
deriving DecidableEq

inductive GraphicsFormat where
  | UPLGF_ARGB32
  | UPLGF_ABGR32
  | UPLGF_ABGR64
deriving DecidableEq

/-- `struct upl_serial`, where no `compatible` means that there is no serial console. -/
structure UplSerial where
  compatible : Option CString
  clock_frequency : UInt32
  current_speed : UInt32
  reg : List Memregion
  reg_io_shift : UInt32
  reg_offset : UInt32
  reg_io_width : UInt32
  virtual_reg : UInt64
  access_type : AccessType
deriving DecidableEq

structure UplGraphics where
  reg : List Memregion
  width : UInt32
  height : UInt32
  stride : UInt32
  format : GraphicsFormat
deriving DecidableEq

structure Upl where
  addr_cells : UInt32
  size_cells : UInt32
  smbios : UInt64
  acpi : UInt64
  bootmode : UInt32
  fit : UInt64
  conf_offset : UInt32
  addr_width : UInt32
  acpi_nvs_size : UInt32
  image : List UplImage
  mem : List UplMem
  memmap : List UplMemmap
  memres : List UplMemres
  serial : UplSerial
  graphics : UplGraphics
deriving DecidableEq

def no_serial : UplSerial := ⟨none,0,0,[],0,0,0,0,.mmio⟩

def no_graphics : UplGraphics := ⟨[],0,0,0,.UPLGF_ARGB32⟩

def upl_init : Upl := ⟨0,0,0,0,0,0,0,0,0,[],[],[],[],no_serial,no_graphics⟩

def bootmode_names : List (List Char) :=
  ["full".toList,"minimal".toList,"fast".toList,"diag".toList,"default".toList,"s2".toList,"s3".toList,
   "s4".toList,"s5".toList,"factory".toList,"flash".toList,"recovery".toList]

def usage_names : List (List Char) :=
  ["acpi-reclaim".toList,"acpi-nvs".toList,"boot-code".toList,"boot-data".toList,"runtime-code".toList,
   "runtime-data".toList]

def access_types : AccessType → List Char
  | .mmio => "mmio".toList
  | .io => "io".toList

def graphics_formats : GraphicsFormat → List Char
  | .UPLGF_ARGB32 => "a8r8g8b8".toList
  | .UPLGF_ABGR32 => "a8b8g8r8".toList
  | .UPLGF_ABGR64 => "a16b16g16r16".toList

def UPLN_OPTIONS : List Char := "options".toList
def UPLN_UPL_PARAMS : List Char := "upl-params".toList
def UPLN_UPL_IMAGE : List Char := "upl-image".toList
def UPLN_IMAGE : List Char := "image".toList
def UPLN_MEMORY : List Char := "memory".toList
def UPLN_MEMORY_MAP : List Char := "memory-map".toList
def UPLN_MEMORY_RESERVED : List Char := "reserved-memory".toList
def UPLN_SERIAL : List Char := "serial".toList
def UPLN_GRAPHICS : List Char := "framebuffer".toList
def UPLC_GRAPHICS : List Char := "simple-framebuffer".toList

def UPLD_REG_IO_SHIFT : UInt32 := 0
def UPLD_REG_OFFSET : UInt32 := 0
def UPLD_REG_IO_WIDTH : UInt32 := 1

/-! ## Writing -/

def write_addr (upl : Upl) (node : Node) (prop : String) (addr : UInt64) : Node :=
  if upl.addr_cells = 1 then ofnode_write_u32 node prop addr.toNat else ofnode_write_u64 node prop addr.toNat

def write_size (upl : Upl) (node : Node) (prop : String) (size : UInt64) : Node :=
  if upl.size_cells = 1 then ofnode_write_u32 node prop size.toNat else ofnode_write_u64 node prop size.toNat

/-- The loop of `ofnode_write_bitmask` from a bit on; the buffer has 128 bytes. -/
def bitmask_buf (value : ℕ) : List (List Char) → ℕ → List Char → Except Errno (List Char)
  | [], _, buf => .ok buf
  | str :: names, bit, buf =>
    if value.testBit bit then
      if buf.length+(str.length+1) > 128 then .error .ENOSPC
      else bitmask_buf value names (bit+1) (buf ++ (str ++ [Fdt.NUL]))
    else bitmask_buf value names (bit+1) buf

def ofnode_write_bitmask (node : Node) (prop : String) (names : List (List Char)) (value : UInt32) : Except Errno Node := do
  let buf ← bitmask_buf value.toNat names 0 []
  .ok (ofnode_write_prop node prop buf)

def add_root_props (upl : Upl) (node : Node) : Node :=
  let node := ofnode_write_u32 node "#address-cells" upl.addr_cells.toNat
  ofnode_write_u32 node "#size-cells" upl.size_cells.toNat

def add_upl_params (upl : Upl) (options : Node) : Except Errno Node :=
  ofnode_add_subnode options UPLN_UPL_PARAMS fun node => do
    let node := write_addr upl node "smbios" upl.smbios
    let node := write_addr upl node "acpi" upl.acpi
    let node ← if upl.bootmode ≠ 0 then ofnode_write_bitmask node "bootmode" bootmode_names upl.bootmode else .ok node
    let node := ofnode_write_u32 node "addr-width" upl.addr_width.toNat
    .ok (ofnode_write_u32 node "acpi-nvs-size" upl.acpi_nvs_size.toNat)

/-- `snprintf` of the name of an image into ten bytes, which cuts it. -/
def image_name (i : ℕ) : List Char := (UPLN_IMAGE ++ '-' :: Nat.toDigits 10 (i+1)).take 9

/-- An image in the loop of `add_upl_image`; a string that is null faults. -/
def add_image (upl : Upl) (node : Node) (entry : UplImage × ℕ) : Except Errno Node :=
  ofnode_add_subnode node (image_name entry.2) fun subnode =>
    let subnode := write_addr upl subnode "load" entry.1.load
    let subnode := write_size upl subnode "size" entry.1.size
    let subnode := if entry.1.offset ≠ 0 then ofnode_write_u32 subnode "offset" entry.1.offset.toNat else subnode
    match entry.1.description with
    | none => .error .fault
    | some description => .ok (ofnode_write_string subnode "description" description.1)

def add_upl_image (upl : Upl) (options : Node) : Except Errno Node :=
  ofnode_add_subnode options UPLN_UPL_IMAGE fun node =>
    let node := if upl.fit ≠ 0 then ofnode_write_u32 node "fit" upl.fit.toNat else node
    let node := if upl.conf_offset ≠ 0 then ofnode_write_u32 node "conf-offset" upl.conf_offset.toNat else node
    upl.image.zipIdx.foldlM (add_image upl) node

def cells (count : UInt32) (value : UInt64) : List Char := if count = 1 then big 4 value.toNat else big 8 value.toNat

/-- `buffer_addr_size` into `size` bytes, for one or two cells each. -/
def buffer_addr_size (upl : Upl) (size : ℕ) : List Memregion → List Char → Except Errno (List Char)
  | [], buf => .ok buf
  | reg :: region, buf =>
    let buf := buf ++ (cells upl.addr_cells reg.base ++ cells upl.size_cells reg.size)
    if buf.length > size then .error .ENOSPC else buffer_addr_size upl size region buf

/-- The name of a node with its unit address, `%s@0x%lx`. -/
def node_name (base : List Char) (addr : UInt64) : List Char := base ++ '@' :: '0' :: 'x' :: Nat.toDigits 16 addr.toNat

/-- `sprintf` of a name into a buffer, which may run past it. -/
def sprintf_name (size : ℕ) (base : List Char) (addr : UInt64) : Except Errno (List Char) :=
  if (node_name base addr).length < size then .ok (node_name base addr) else .error .fault

/-- A node with regions in one of the loops over memory: its name is made from the first region. -/
def add_regions (upl : Upl) (parent : Node) (base : List Char) (region : List Memregion)
    (fill : Node → Except Errno Node) : Except Errno Node :=
  match region with
  | [] => .error .EINVAL
  | first :: _ => do
    let name ← sprintf_name 26 base first.base
    ofnode_add_subnode parent name fun node => do
      let buf ← buffer_addr_size upl (region.length*16) region []
      fill (ofnode_write_prop node "reg" buf)

def add_upl_memory (upl : Upl) (root : Node) : Except Errno Node :=
  upl.mem.foldlM (fun root mem => add_regions upl root UPLN_MEMORY mem.region fun node =>
    .ok (if mem.hotpluggable then ofnode_write_bool node "hotpluggable" else node)) root

def add_upl_memmap (upl : Upl) (root : Node) : Except Errno Node :=
  if upl.memmap = [] then .ok root
  else ofnode_add_subnode root UPLN_MEMORY_MAP fun mem_node =>
    upl.memmap.foldlM (fun mem_node memmap => add_regions upl mem_node memmap.name memmap.region fun node =>
      if memmap.usage ≠ 0 then ofnode_write_bitmask node "usage" usage_names memmap.usage else .ok node) mem_node

local instance names_lawful : LawfulBEq (List Char) := inferInstance

/-- The node is added if there are entries in the memory map. -/
def add_upl_memres (upl : Upl) (root : Node) (skip_existing : Bool) : Except Errno Node :=
  if upl.memmap = [] then .ok root
  else if skip_existing ∧ UPLN_MEMORY_RESERVED ∈ root.children.map Node.name then .ok root
  else ofnode_add_subnode root UPLN_MEMORY_RESERVED fun mem_node =>
    upl.memres.foldlM (fun mem_node memres => add_regions upl mem_node memres.name memres.region fun node =>
      .ok (if memres.no_map then ofnode_write_bool node "no-map" else node)) mem_node

def add_upl_serial (upl : Upl) (root : Node) (skip_existing : Bool) : Except Errno Node :=
  let ser := upl.serial
  match ser.compatible with
  | none => .ok root
  | some compatible =>
    if skip_existing then .ok root
    else
      match ser.reg with
      | [] => .error .EINVAL
      | first :: _ => do
        let name ← sprintf_name 26 UPLN_SERIAL first.base
        ofnode_add_subnode root name fun node => do
          let node := ofnode_write_string node "compatible" compatible.1
          let node := ofnode_write_u32 node "clock-frequency" ser.clock_frequency.toNat
          let node := ofnode_write_u32 node "current-speed" ser.current_speed.toNat
          let buf ← buffer_addr_size upl 16 (ser.reg.take 1) []
          let node := ofnode_write_prop node "reg" buf
          let node := if ser.reg_io_shift ≠ UPLD_REG_IO_SHIFT then ofnode_write_u32 node "reg-io-shift" ser.reg_io_shift.toNat else node
          let node := if ser.reg_offset ≠ UPLD_REG_OFFSET then ofnode_write_u32 node "reg-offset" ser.reg_offset.toNat else node
          let node := if ser.reg_io_width ≠ UPLD_REG_IO_WIDTH then ofnode_write_u32 node "reg-io-width" ser.reg_io_width.toNat else node
          let node := if ser.virtual_reg ≠ 0 then write_addr upl node "virtual-reg" ser.virtual_reg else node
          .ok (ofnode_write_string node "access-type" (access_types ser.access_type))

def add_upl_graphics (upl : Upl) (root : Node) : Except Errno Node :=
  let gra := upl.graphics
  match gra.reg with
  | [] => .error .ENOENT
  | first :: _ => do
    let name ← sprintf_name 36 UPLN_GRAPHICS first.base
    ofnode_add_subnode root name fun node => do
      let node := ofnode_write_string node "compatible" UPLC_GRAPHICS
      let buf ← buffer_addr_size upl 16 (gra.reg.take 1) []
      let node := ofnode_write_prop node "reg" buf
      let node := ofnode_write_u32 node "width" gra.width.toNat
      let node := ofnode_write_u32 node "height" gra.height.toNat
      let node := ofnode_write_u32 node "stride" gra.stride.toNat
      .ok (ofnode_write_string node "format" (graphics_formats gra.format))

/-- The end of `upl_write_handoff`: it is no error if there is no display. -/
def unless_missing (root : Node) : Except Errno Node → Except Errno Node
  | .error .ENOENT => .ok root
  | result => result

def upl_write_handoff (upl : Upl) (root : Node) (skip_existing : Bool) : Except Errno Node := do
  let root := add_root_props upl root
  -- options that are there are used
  let root ←
    if UPLN_OPTIONS ∈ root.children.map Node.name then do
      let children ← root.children.mapM fun child =>
        if child.name = UPLN_OPTIONS then do
          let options ← add_upl_params upl child
          add_upl_image upl options
        else .ok child
      .ok (.mk root.name root.properties children)
    else
      ofnode_add_subnode root UPLN_OPTIONS fun options => do
        let options ← add_upl_params upl options
        add_upl_image upl options
  let root ← add_upl_memory upl root
  let root ← add_upl_memmap upl root
  let root ← add_upl_memres upl root skip_existing
  let root ← add_upl_serial upl root skip_existing
  unless_missing root (add_upl_graphics upl root)

/-- `upl_create_handoff_tree`, with the root of `of_live_create_empty`. -/
def upl_create_handoff_tree (upl : Upl) : Except Errno Node := upl_write_handoff upl (empty_node []) false

/-! ## Reading -/

def read_addr (upl : Upl) (node : Node) (prop : String) : Except Errno UInt64 :=
  (if upl.addr_cells = 1 then ofnode_read_u32 node prop else ofnode_read_u64 node prop).map .ofNat

def read_size (upl : Upl) (node : Node) (prop : String) : Except Errno UInt64 :=
  (if upl.size_cells = 1 then ofnode_read_u32 node prop else ofnode_read_u64 node prop).map .ofNat

/-- A string of the list in `ofnode_read_bitmask`; a string that is no name is skipped. -/
def read_bit (names : List (List Char)) (val : ℕ) (str : List Char) : ℕ :=
  match names.findIdx? (· = str) with
  | some bit => val ||| 1 <<< bit
  | none => val

def ofnode_read_bitmask (node : Node) (prop : String) (names : List (List Char)) : Except Errno UInt32 := do
  let list ← ofnode_read_string_list node prop
  .ok (.ofNat (list.foldl (read_bit names) 0))

/-- `ofnode_read_value` over the values that have names; the entry behind the last one is null. -/
def ofnode_read_value {α : Type} (node : Node) (prop : String) (names : α → List Char) (values : List α) : Except Errno α :=
  match ofnode_read_string node prop with
  | none => .error .ENOENT
  | some str =>
    match values.find? (names · = str.1) with
    | some value => .ok value
    | none => .error .fault

def read_uint (node : Node) (prop : String) : Except Errno UInt32 := (ofnode_read_u32 node prop).map .ofNat

def decode_root_props (upl : Upl) (node : Node) : Except Errno Upl := do
  let addr_cells ← read_uint node "#address-cells"
  let size_cells ← read_uint node "#size-cells"
  .ok {upl with addr_cells := addr_cells, size_cells := size_cells}

def decode_upl_params (upl : Upl) (options : Node) : Except Errno Upl :=
  match ofnode_find_subnode options UPLN_UPL_PARAMS with
  | none => .error .EINVAL
  | some node => do
    let smbios ← read_addr upl node "smbios"
    let acpi ← read_addr upl node "acpi"
    let bootmode ← ofnode_read_bitmask node "bootmode" bootmode_names
    let addr_width ← read_uint node "addr-width"
    let acpi_nvs_size ← read_uint node "acpi-nvs-size"
    .ok {upl with smbios := smbios, acpi := acpi, bootmode := bootmode, addr_width := addr_width, acpi_nvs_size := acpi_nvs_size}

/-- The numbers of an image: what cannot be read stays as it was on the stack. -/
def read_image (upl : Upl) (node : Node) (img : UplImage) : UplImage × Except Errno Unit :=
  match read_addr upl node "load" with
  | .error e => (img,.error e)
  | .ok load =>
    match read_size upl node "size" with
    | .error e => ({img with load := load},.error e)
    | .ok size =>
      match read_uint node "offset" with
      | .error e => ({img with load := load, size := size},.error e)
      | .ok offset => ({img with load := load, size := size, offset := offset},.ok ())

/-- The loop of `decode_upl_images`; `stack` is what the variable `img` holds at its start in
    each round. An image without description ends it, with the last result. -/
def decode_images (upl : Upl) (stack : ℕ → UplImage) : List Node → List UplImage → Except Errno (List UplImage)
  | [], image => .ok image
  | node :: rest, image =>
    let (img,ret) := read_image upl node (stack image.length)
    match ofnode_read_string node "description" with
    | none => ret.map fun _ => image
    | some description => decode_images upl stack rest (image ++ [{img with description := some description}])

def decode_upl_images (upl : Upl) (stack : ℕ → UplImage) (options : Node) : Except Errno Upl :=
  match ofnode_find_subnode options UPLN_UPL_IMAGE with
  | none => .error .EINVAL
  | some images => do
    let fit ← read_addr upl images "fit"
    let conf_offset ← read_uint images "conf-offset"
    let image ← decode_images upl stack images.children upl.image
    .ok {upl with fit := fit, conf_offset := conf_offset, image := image}

def read_cells (count : UInt32) (buf : List Char) : UInt64 :=
  if count = 1 then .ofNat (of_big (buf.take 4)) else .ofNat (of_big (buf.take 8))

/-- The loop of `decode_addr_size` at `ptr`, the bytes from there on. Without cells it goes on
    until there is no memory for the list. -/
def decode_addr_size_from (upl : Upl) (size : ℕ) : ℕ → ℕ → List Char → List Memregion → Except Errno (List Memregion)
  | 0, _, _, _ => .error .ENOMEM
  | fuel+1, ptr, buf, regions =>
    if ptr < size then
      let base := read_cells upl.addr_cells buf
      let buf := buf.drop (upl.addr_cells.toNat*4)
      let length := read_cells upl.size_cells buf
      let buf := buf.drop (upl.size_cells.toNat*4)
      let ptr := ptr+upl.addr_cells.toNat*4+upl.size_cells.toNat*4
      if ptr > size then .error .ENOSPC
      else decode_addr_size_from upl size fuel ptr buf (regions ++ [⟨base,length⟩])
    else .ok regions

def decode_addr_size (upl : Upl) (buf : List Char) (size : ℕ) : Except Errno (List Memregion) :=
  decode_addr_size_from upl size (size+1) 0 buf []

def node_matches_at (node : Node) (base : List Char) : Bool :=
  base <+: node.name ∧ (node.name.drop base.length).head? = some '@'

def decode_upl_memory_node (upl : Upl) (node : Node) : Except Errno Upl :=
  match ofnode_read_prop node "reg" with
  | none => .error .EINVAL
  | some buf => do
    let region ← decode_addr_size upl buf buf.length
    .ok {upl with mem := upl.mem ++ [⟨region,ofnode_read_bool node "hotpluggable"⟩]}

/-- A node of the memory map. The property for the usage is optional. -/
def decode_memmap_node (upl : Upl) (node : Node) : Except Errno Upl :=
  match ofnode_read_prop node "reg" with
  | none => .ok upl
  | some buf => do
    let region ← decode_addr_size upl buf buf.length
    match ofnode_read_bitmask node "usage" usage_names with
    | .ok usage => .ok {upl with memmap := upl.memmap ++ [⟨node.name,region,usage⟩]}
    | .error .EINVAL => .ok {upl with memmap := upl.memmap ++ [⟨node.name,region,0⟩]}
    | .error e => .error e

def decode_upl_memmap (upl : Upl) (root : Node) : Except Errno Upl := root.children.foldlM decode_memmap_node upl

def decode_memres_node (upl : Upl) (node : Node) : Except Errno Upl :=
  match ofnode_read_prop node "reg" with
  | none => .ok upl
  | some buf => do
    let region ← decode_addr_size upl buf buf.length
    .ok {upl with memres := upl.memres ++ [⟨node.name,region,ofnode_read_bool node "no-map"⟩]}

def decode_upl_memres (upl : Upl) (root : Node) : Except Errno Upl := root.children.foldlM decode_memres_node upl

def SIZEOF_BUF : ℕ := 8

/-- The number of bytes to decode is given as the size of the pointer `buf`. -/
def decode_upl_serial (upl : Upl) (node : Node) : Except Errno Upl :=
  match ofnode_read_string node "compatible" with
  | none => .error .EINVAL
  | some compatible => do
    let clock_frequency ← read_uint node "clock-frequency"
    let current_speed ← read_uint node "current-speed"
    match ofnode_read_prop node "reg" with
    | none => .error .EINVAL
    | some buf => do
      let reg ← decode_addr_size upl buf SIZEOF_BUF
      let ser : UplSerial :=
        {compatible := some compatible, clock_frequency := clock_frequency, current_speed := current_speed, reg := reg,
         reg_io_shift := (read_uint node "reg-io-shift").toOption.getD UPLD_REG_IO_SHIFT,
         reg_offset := (read_uint node "reg-offset").toOption.getD UPLD_REG_OFFSET,
         reg_io_width := (read_uint node "reg-io-width").toOption.getD UPLD_REG_IO_WIDTH,
         virtual_reg := (read_addr upl node "virtual-reg").toOption.getD upl.serial.virtual_reg,
         access_type := upl.serial.access_type}
      match ofnode_read_value node "access-type" access_types [.mmio,.io] with
      | .ok access_type => .ok {upl with serial := {ser with access_type := access_type}}
      | .error .ENOENT => .ok {upl with serial := ser}
      | .error e => .error e

def decode_upl_graphics (upl : Upl) (node : Node) : Except Errno Upl :=
  match ofnode_read_string node "compatible" with
  | none => .error .EINVAL
  | some compat =>
    if compat.1 ≠ UPLC_GRAPHICS then .ok upl
    else
      match ofnode_read_prop node "reg" with
      | none => .error .EINVAL
      | some buf => do
        let reg ← decode_addr_size upl buf buf.length
        let width ← read_uint node "width"
        let height ← read_uint node "height"
        let stride ← read_uint node "stride"
        let format ← ofnode_read_value node "format" graphics_formats [.UPLGF_ARGB32,.UPLGF_ABGR32,.UPLGF_ABGR64]
        .ok {upl with graphics := ⟨reg,width,height,stride,format⟩}

/-- A node below the root in the loop of `upl_read_handoff`. -/
def decode_node (stack : ℕ → UplImage) (upl : Upl) (node : Node) : Except Errno Upl :=
  if node.name = UPLN_OPTIONS then do
    let upl ← decode_upl_params upl node
    decode_upl_images upl stack node
  else if node_matches_at node UPLN_MEMORY then decode_upl_memory_node upl node
  else if node.name = UPLN_MEMORY_MAP then decode_upl_memmap upl node
  else if node.name = UPLN_MEMORY_RESERVED then decode_upl_memres upl node
  else if node_matches_at node UPLN_SERIAL then decode_upl_serial upl node
  else if node_matches_at node UPLN_GRAPHICS then decode_upl_graphics upl node
  else .ok upl

def upl_read_handoff (stack : ℕ → UplImage) (root : Node) : Except Errno Upl := do
  let upl ← decode_root_props upl_init root
  root.children.foldlM (decode_node stack) upl

/-! ## Numbers and bit masks -/

def held (count : UInt32) (value : UInt64) : UInt64 := .ofNat (if count = 1 then value.toNat%256^4 else value.toNat%256^8)

def Fits (count : UInt32) (value : UInt64) : Prop := count = 1 → value.toNat < 2^32

theorem held_eq_iff (count : UInt32) (value : UInt64) : held count value = value ↔ Fits count value := by
  have range := value.toNat_lt
  unfold held Fits
  rw [← UInt64.toNat_inj,UInt64.toNat_ofNat']
  by_cases one : count = 1
  · simp only [one,if_pos,true_implies]
    omega
  · simp only [one,if_neg,not_false_eq_true,false_implies,iff_true]
    omega

theorem write_addr_eq (upl : Upl) (node : Node) (prop : String) (addr : UInt64) :
    write_addr upl node prop addr = ofnode_write_prop node prop (cells upl.addr_cells addr) := by
  unfold write_addr cells ofnode_write_u32 ofnode_write_u64
  split_ifs with one
  · rfl
  · rfl

theorem write_size_eq (upl : Upl) (node : Node) (prop : String) (size : UInt64) :
    write_size upl node prop size = ofnode_write_prop node prop (cells upl.size_cells size) := by
  unfold write_size cells ofnode_write_u32 ofnode_write_u64
  split_ifs with one
  · rfl
  · rfl

variable {base : List Char} {names : List (List Char)} {node : Node} {prop : String} {upl : Upl}

theorem read_addr_held {addr : UInt64}
    (there : ofnode_read_prop node prop = some (cells upl.addr_cells addr)) :
    read_addr upl node prop = .ok (held upl.addr_cells addr) := by
  unfold cells at there
  unfold read_addr held ofnode_read_u32 ofnode_read_u64
  by_cases one : upl.addr_cells = 1
  · rw [if_pos one] at there
    simp [one,read_number_held there,Except.map]
  · rw [if_neg one] at there
    simp [one,read_number_held there,Except.map]

theorem read_size_held {size : UInt64}
    (there : ofnode_read_prop node prop = some (cells upl.size_cells size)) :
    read_size upl node prop = .ok (held upl.size_cells size) := by
  unfold cells at there
  unfold read_size held ofnode_read_u32 ofnode_read_u64
  by_cases one : upl.size_cells = 1
  · rw [if_pos one] at there
    simp [one,read_number_held there,Except.map]
  · rw [if_neg one] at there
    simp [one,read_number_held there,Except.map]

theorem read_uint_held {value : UInt32}
    (there : ofnode_read_prop node prop = some (big 4 value.toNat)) : read_uint node prop = .ok value := by
  have range := value.toNat_lt
  have whole : value.toNat%256^4 = value.toNat := Nat.mod_eq_of_lt (by omega)
  unfold read_uint ofnode_read_u32
  rw [read_number_held there,whole]
  simp [Except.map]

theorem read_uint_none (missing : ofnode_read_prop node prop = none) :
    read_uint node prop = .error .EINVAL := by
  simp [read_uint,ofnode_read_u32,read_number,missing,Except.map]

theorem read_addr_none (missing : ofnode_read_prop node prop = none) :
    read_addr upl node prop = .error .EINVAL := by
  unfold read_addr ofnode_read_u32 ofnode_read_u64
  by_cases one : upl.addr_cells = 1
  · simp [one,read_number,missing,Except.map]
  · simp [one,read_number,missing,Except.map]

def selected (value : ℕ) : List (List Char) → ℕ → List (List Char)
  | [], _ => []
  | str :: names, bit => if value.testBit bit then str :: selected value names (bit+1) else selected value names (bit+1)

theorem selected_sub {value : ℕ} {bit : ℕ} : ∀ str ∈ selected value names bit, str ∈ names := by
  induction names generalizing bit with
  | nil => simp [selected]
  | cons name names ih =>
    intro str member
    unfold selected at member
    by_cases set : value.testBit bit
    · rw [if_pos set] at member
      cases mem_cons.mp member with
      | inl here => exact here ▸ mem_cons_self
      | inr there => exact mem_cons_of_mem _ (ih str there)
    · rw [if_neg set] at member
      exact mem_cons_of_mem _ (ih str member)

theorem bitmask_buf_eq (value : ℕ) (bit : ℕ) {buf : List Char}
    (room : buf.length+(names.map fun str => str.length+1).sum ≤ 128) :
    bitmask_buf value names bit buf = .ok (buf ++ (selected value names bit).flatMap (· ++ [Fdt.NUL])) := by
  induction names generalizing bit buf with
  | nil => simp [bitmask_buf,selected]
  | cons str names ih =>
    rw [map_cons,sum_cons] at room
    unfold bitmask_buf selected
    by_cases set : value.testBit bit
    · have fits : ¬ buf.length+(str.length+1) > 128 := by omega
      rw [if_pos set,if_neg fits,if_pos set,ih (bit+1) (by rw [length_append,length_append,length_singleton]; omega)]
      simp
    · rw [if_neg set,if_neg set,ih (bit+1) (by omega)]

theorem read_selected {value : ℕ} {names : List (List Char)} (distinct : names.Nodup) {done rest : List (List Char)}
    (split : names = done ++ rest) :
    (selected value rest done.length).foldl (read_bit names) (value%2^done.length) = value%2^names.length := by
  induction rest generalizing done with
  | nil => simp [selected,split]
  | cons str rest ih =>
    have next := @ih (done ++ [str]) (by simp [split])
    rw [length_append,length_singleton] at next
    have low : value%2^(done.length+1) = value%2^done.length+2^done.length*(value.testBit done.length).toNat := by
      rw [Nat.mod_pow_succ,Nat.toNat_testBit]
    unfold selected
    by_cases set : value.testBit done.length
    · have found : names.findIdx? (· = str) = some done.length := by
        rw [split] at distinct ⊢
        have fresh : str ∉ done := by
          intro member
          exact (nodup_append.mp distinct).2.2 str member str mem_cons_self rfl
        rw [findIdx?_append,findIdx?_eq_none_iff.mpr]
        · simp [findIdx?_cons]
        · intro other member
          have : other ≠ str := fun same => fresh (same ▸ member)
          simpa using this
      have small : value%2^done.length < 2^done.length := Nat.mod_lt _ (Nat.two_pow_pos _)
      have joined : read_bit names (value%2^done.length) str = value%2^(done.length+1) := by
        simp only [read_bit,found,low,set,Bool.toNat_true,mul_one]
        rw [Nat.or_comm,← Nat.shiftLeft_add_eq_or_of_lt small,Nat.one_shiftLeft,add_comm]
      rw [if_pos set,foldl_cons,joined,next]
    · rw [if_neg set]
      simp only [set,Bool.toNat_false,mul_zero,add_zero] at low
      rw [low] at next
      exact next

theorem selected_none {value : ℕ} {bit : ℕ}
    (clear : ∀ i < names.length, value.testBit (bit+i) = false) : selected value names bit = [] := by
  induction names generalizing bit with
  | nil => rfl
  | cons str names ih =>
    have here : value.testBit bit = false := clear 0 (by simp)
    unfold selected
    rw [here,if_neg (by simp)]
    apply ih
    intro i inside
    have := clear (i+1) (by simp; omega)
    rwa [show bit+(i+1) = bit+1+i by omega] at this

structure BitNames (names : List (List Char)) : Prop where
  distinct : names.Nodup
  free : ∀ str ∈ names, Fdt.NUL ∉ str
  room : (names.map fun str => str.length+1).sum ≤ 128

theorem bootmode_bits : BitNames bootmode_names := ⟨by decide,by decide,by decide⟩

theorem usage_bits : BitNames usage_names := ⟨by decide,by decide,by decide⟩

def mask_value (names : List (List Char)) (value : UInt32) : List Char :=
  (selected value.toNat names 0).flatMap (· ++ [Fdt.NUL])

theorem write_bitmask_eq (bits : BitNames names) (node : Node) (prop : String) (value : UInt32) :
    ofnode_write_bitmask node prop names value = .ok (ofnode_write_prop node prop (mask_value names value)) := by
  unfold ofnode_write_bitmask mask_value
  rw [bitmask_buf_eq value.toNat 0 (by simpa using bits.room)]
  rfl

/-- The bits that have names are read back, if there are any. -/
theorem read_bitmask_eq (bits : BitNames names) {value : UInt32}
    (there : ofnode_read_prop node prop = some (mask_value names value)) :
    ofnode_read_bitmask node prop names =
      if value.toNat%2^names.length = 0 then .error .ENODATA else .ok (.ofNat (value.toNat%2^names.length)) := by
  have free : ∀ str ∈ selected value.toNat names 0, Fdt.NUL ∉ str := fun str member => bits.free str (selected_sub str member)
  have total := @read_selected value.toNat names bits.distinct [] names rfl
  simp only [length_nil,pow_zero,Nat.mod_one] at total
  unfold ofnode_read_bitmask ofnode_read_string_list
  simp only [there,mask_value,stringlist_joined free,ne_eq,not_true_eq_false,if_false]
  by_cases zero : value.toNat%2^names.length = 0
  · have none_set : selected value.toNat names 0 = [] := by
      apply selected_none
      intro i inside
      have bit : (value.toNat%2^names.length).testBit i = false := by simp [zero]
      simpa [Nat.testBit_mod_two_pow,inside] using bit
    rw [if_pos none_set,if_pos zero]
    rfl
  · have some_set : selected value.toNat names 0 ≠ [] := by
      intro empty
      rw [empty,foldl_nil] at total
      exact zero total.symm
    rw [if_neg some_set,if_neg zero]
    simp only [bind,Except.bind,total]

theorem read_bitmask_none (names : List (List Char)) (missing : ofnode_read_prop node prop = none) :
    ofnode_read_bitmask node prop names = .error .EINVAL := by
  simp [ofnode_read_bitmask,ofnode_read_string_list,missing,bind,Except.bind]

/-- A mask is kept if all of its bits have names. -/
theorem mask_kept_iff {names : List (List Char)} (small : names.length < 32) (value : UInt32) :
    UInt32.ofNat (value.toNat%2^names.length) = value ↔ value.toNat < 2^names.length := by
  have bound : value.toNat%2^names.length < 2^names.length := Nat.mod_lt _ (Nat.two_pow_pos _)
  have wide : 2^names.length < 2^32 := Nat.pow_lt_pow_right (by omega) small
  rw [← UInt32.toNat_inj,UInt32.toNat_ofNat',Nat.mod_eq_of_lt (lt_trans bound wide)]
  constructor
  · intro same
    omega
  · intro less
    exact Nat.mod_eq_of_lt less

/-! ## Regions -/

def regions_value (upl : Upl) (region : List Memregion) : List Char :=
  region.flatMap fun reg => cells upl.addr_cells reg.base ++ cells upl.size_cells reg.size

theorem cells_length_le (count : UInt32) (value : UInt64) : (cells count value).length ≤ 8 := by
  unfold cells
  split_ifs with one
  · simp
  · simp

def OneOrTwo (count : UInt32) : Prop := count = 1 ∨ count = 2

theorem cells_length {count : UInt32} (cell : OneOrTwo count) (value : UInt64) : (cells count value).length = count.toNat*4 := by
  unfold cells
  cases cell with
  | inl one => simp [one]
  | inr two => simp [two]

/-- The buffer of each writer is large enough. -/
theorem buffer_addr_size_eq (upl : Upl) {size : ℕ} {region : List Memregion} {buf : List Char}
    (room : buf.length+region.length*16 ≤ size) :
    buffer_addr_size upl size region buf = .ok (buf ++ regions_value upl region) := by
  induction region generalizing buf with
  | nil => simp [buffer_addr_size,regions_value]
  | cons reg region ih =>
    have short_base := cells_length_le upl.addr_cells reg.base
    have short_size := cells_length_le upl.size_cells reg.size
    rw [length_cons] at room
    unfold buffer_addr_size
    have fits : ¬ (buf ++ (cells upl.addr_cells reg.base ++ cells upl.size_cells reg.size)).length > size := by
      simp only [length_append]
      omega
    simp only [if_neg fits]
    rw [ih (by simp only [length_append]; omega)]
    simp [regions_value]

def held_region (upl : Upl) (reg : Memregion) : Memregion := ⟨held upl.addr_cells reg.base,held upl.size_cells reg.size⟩

theorem read_cells_front {count : UInt32} (value : UInt64) (rest : List Char) :
    read_cells count (cells count value ++ rest) = held count value := by
  unfold read_cells cells held
  by_cases one : count = 1
  · simp only [one,if_pos]
    rw [take_left' (by simp),of_big_big]
  · simp only [one,if_neg,not_false_eq_true]
    rw [take_left' (by simp),of_big_big]

theorem decode_addr_size_from_eq {upl read : Upl} (addr : OneOrTwo upl.addr_cells) (size : OneOrTwo upl.size_cells)
    (same_addr : read.addr_cells = upl.addr_cells) (same_size : read.size_cells = upl.size_cells)
    (region : List Memregion) {ptr total fuel : ℕ} (regions : List Memregion) (room : region.length < fuel)
    (ends : ptr+region.length*(upl.addr_cells.toNat*4+upl.size_cells.toNat*4) = total) :
    decode_addr_size_from read total fuel ptr (regions_value upl region) regions =
      .ok (regions ++ region.map (held_region upl)) := by
  have some_addr : 0 < upl.addr_cells.toNat := by
    cases addr with
    | inl one => simp [one]
    | inr two => simp [two]
  induction region generalizing ptr fuel regions with
  | nil =>
    obtain ⟨more,rfl⟩ : ∃ more, fuel = more+1 := ⟨fuel-1,by simp at room; omega⟩
    have done : ¬ ptr < total := by simp at ends; omega
    simp [decode_addr_size_from,done]
  | cons reg region ih =>
    obtain ⟨more,rfl⟩ : ∃ more, fuel = more+1 := ⟨fuel-1,by simp at room; omega⟩
    rw [length_cons] at room ends
    have going : ptr < total := by
      rw [← ends,add_mul]
      omega
    have inside : ¬ ptr+upl.addr_cells.toNat*4+upl.size_cells.toNat*4 > total := by
      rw [← ends,add_mul]
      omega
    have value : regions_value upl (reg :: region) =
        cells upl.addr_cells reg.base ++ (cells upl.size_cells reg.size ++ regions_value upl region) := by
      simp [regions_value]
    unfold decode_addr_size_from
    simp only [if_pos going,value,same_addr,same_size,if_neg inside]
    rw [read_cells_front,drop_left' (cells_length addr _),read_cells_front,drop_left' (cells_length size _),
      ih _ (by omega) (by rw [← ends]; ring)]
    simp [held_region]

theorem regions_value_length (addr : OneOrTwo upl.addr_cells) (size : OneOrTwo upl.size_cells)
    (region : List Memregion) :
    (regions_value upl region).length = region.length*(upl.addr_cells.toNat*4+upl.size_cells.toNat*4) := by
  unfold regions_value
  induction region with
  | nil => simp
  | cons reg region ih =>
    rw [flatMap_cons,length_append,ih,length_append,cells_length addr,cells_length size,length_cons]
    ring

/-- Regions are read back, each as its cells hold it. -/
theorem decode_addr_size_eq {upl read : Upl} (addr : OneOrTwo upl.addr_cells) (size : OneOrTwo upl.size_cells)
    (same_addr : read.addr_cells = upl.addr_cells) (same_size : read.size_cells = upl.size_cells) (region : List Memregion) :
    decode_addr_size read (regions_value upl region) (regions_value upl region).length =
      .ok (region.map (held_region upl)) := by
  have length := regions_value_length addr size region
  have some_addr : 0 < upl.addr_cells.toNat := by
    cases addr with
    | inl one => simp [one]
    | inr two => simp [two]
  have enough : region.length < (regions_value upl region).length+1 := by
    have widen := Nat.le_mul_of_pos_right region.length (show 0 < upl.addr_cells.toNat*4+upl.size_cells.toNat*4 by omega)
    omega
  unfold decode_addr_size
  rw [decode_addr_size_from_eq addr size same_addr same_size region [] enough (by rw [length]; omega)]
  rfl

def RegionsFit (upl : Upl) (region : List Memregion) : Prop :=
  ∀ reg ∈ region, Fits upl.addr_cells reg.base ∧ Fits upl.size_cells reg.size

theorem regions_kept_iff (upl : Upl) (region : List Memregion) : region = region.map (held_region upl) ↔ RegionsFit upl region := by
  have one : ∀ reg : Memregion, held_region upl reg = reg ↔ Fits upl.addr_cells reg.base ∧ Fits upl.size_cells reg.size := by
    intro reg
    rw [← held_eq_iff,← held_eq_iff]
    unfold held_region
    constructor
    · intro same
      exact ⟨congrArg Memregion.base same,congrArg Memregion.size same⟩
    · rintro ⟨same_base,same_size⟩
      rw [same_base,same_size]
  unfold RegionsFit
  induction region with
  | nil => simp
  | cons reg region ih =>
    rw [map_cons,List.cons.injEq,forall_mem_cons,← one,eq_comm]
    exact and_congr Iff.rfl ih

/-! ## Names of nodes -/

theorem digit_injective : ∀ d < 16, ∀ e < 16, Nat.digitChar d = Nat.digitChar e → d = e := by decide

theorem hex_injective {m n : ℕ} (same : Nat.toDigits 16 m = Nat.toDigits 16 n) : m = n := by
  induction m using Nat.strong_induction_on generalizing n with
  | _ m ih =>
    by_cases short_m : m < 16
    · by_cases short_n : n < 16
      · rw [Nat.toDigits_of_lt_base short_m,Nat.toDigits_of_lt_base short_n] at same
        exact digit_injective m short_m n short_n (singleton_inj.mp same)
      · have longer := @Nat.length_toDigits_pos 16 (n/16)
        rw [Nat.toDigits_of_lt_base short_m,Nat.toDigits_of_base_le (by omega) (by omega)] at same
        have lengths := congrArg List.length same
        simp only [length_append,length_singleton] at lengths
        omega
    · by_cases short_n : n < 16
      · have longer := @Nat.length_toDigits_pos 16 (m/16)
        rw [Nat.toDigits_of_base_le (by omega) (by omega),Nat.toDigits_of_lt_base short_n] at same
        have lengths := congrArg List.length same
        simp only [length_append,length_singleton] at lengths
        omega
      · rw [@Nat.toDigits_of_base_le 16 m (by omega) (by omega),@Nat.toDigits_of_base_le 16 n (by omega) (by omega)] at same
        obtain ⟨front,last⟩ := append_inj' same rfl
        have high := ih (m/16) (by omega) front
        have low := digit_injective (m%16) (Nat.mod_lt m (by omega)) (n%16) (Nat.mod_lt n (by omega)) (singleton_inj.mp last)
        omega

theorem hex_length (addr : UInt64) : (Nat.toDigits 16 addr.toNat).length ≤ 16 := by
  rw [Nat.length_toDigits_le_iff (by omega) (by omega)]
  have range := addr.toNat_lt
  omega

theorem node_name_length (base : List Char) (addr : UInt64) :
    (node_name base addr).length = base.length+3+(Nat.toDigits 16 addr.toNat).length := by
  simp [node_name]
  omega

theorem sprintf_name_ok {size : ℕ} {base name : List Char} {addr : UInt64} :
    sprintf_name size base addr = .ok name ↔ (node_name base addr).length < size ∧ name = node_name base addr := by
  unfold sprintf_name
  by_cases fits : (node_name base addr).length < size
  · simp [fits,eq_comm]
  · simp [fits]

/-- A fixed name has room for every unit address. -/
theorem name_room {size : ℕ} (short : base.length+19 < size) (addr : UInt64) :
    (node_name base addr).length < size := by
  have digits := hex_length addr
  rw [node_name_length]
  omega

theorem node_name_same_base {m n : UInt64} : node_name base m = node_name base n ↔ m = n := by
  constructor
  · intro same
    unfold node_name at same
    have digits := append_cancel_left same
    simp only [List.cons.injEq,true_and] at digits
    exact UInt64.toNat_inj.mp (hex_injective digits)
  · rintro rfl
    rfl

theorem front_of_name (free : '@' ∉ base) (addr : UInt64) :
    (node_name base addr).takeWhile (· ≠ '@') = base := by
  unfold node_name
  rw [takeWhile_append_of_pos]
  · simp
  · intro c member
    have : c ≠ '@' := fun same => free (same ▸ member)
    simpa using this

theorem node_name_inj {base other : List Char} (free : '@' ∉ base) (free_other : '@' ∉ other) {m n : UInt64} :
    node_name base m = node_name other n ↔ base = other ∧ m = n := by
  constructor
  · intro same
    have bases : base = other := by
      rw [← front_of_name free m,same,front_of_name free_other n]
    subst bases
    exact ⟨rfl,node_name_same_base.mp same⟩
  · rintro ⟨rfl,rfl⟩
    rfl

/-- `check_device_name` of the unit test: a name is compared up to the unit address. -/
def check_device_name (base cmp : List Char) : Prop :=
  if '@' ∈ cmp then cmp.take base.length = base ∧ (cmp.takeWhile (· ≠ '@')).length = base.length else base = cmp

theorem device_name_iff (base : List Char) (addr : UInt64) : check_device_name base (node_name base addr) ↔ '@' ∉ base := by
  have marked : '@' ∈ node_name base addr := by simp [node_name]
  have prefixed : (node_name base addr).take base.length = base := by simp [node_name]
  unfold check_device_name
  rw [if_pos marked,prefixed]
  constructor
  · rintro ⟨-,length⟩ member
    unfold node_name at length
    rw [takeWhile_append] at length
    have cut : ¬ (base.takeWhile (· ≠ '@')).length = base.length := by
      intro whole
      have all := (List.takeWhile_prefix (· ≠ '@')).eq_of_length whole
      rw [← all] at member
      have := mem_takeWhile_imp member
      simp at this
    rw [if_neg cut] at length
    exact cut length
  · intro free
    exact ⟨rfl,by rw [front_of_name free]⟩

theorem image_name_eq {i : ℕ} (few : i < 999) : image_name i = UPLN_IMAGE ++ '-' :: Nat.toDigits 10 (i+1) := by
  have digits : (Nat.toDigits 10 (i+1)).length ≤ 3 := (Nat.length_toDigits_le_iff (by omega) (by omega)).mpr (by omega)
  have base : UPLN_IMAGE.length = 5 := rfl
  apply take_of_length_le
  simp only [length_append,length_cons,base]
  omega

theorem image_name_injective {i j : ℕ} (few_i : i < 999) (few_j : j < 999) (same : image_name i = image_name j) : i = j := by
  rw [image_name_eq few_i,image_name_eq few_j] at same
  have digits := append_cancel_left same
  simp only [List.cons.injEq,true_and] at digits
  have numbers := congrArg (Nat.ofDigitChars 10 · 0) digits
  simp only [Nat.ofDigitChars_ten_toDigits] at numbers
  omega

theorem image_name_cut : image_name 999 = image_name 99 := by decide

theorem image_names_nodup_iff (count : ℕ) : ((List.range count).map image_name).Nodup ↔ count < 1000 := by
  constructor
  · intro distinct
    by_contra many
    have injective := inj_on_of_nodup_map distinct
    have same := injective (mem_range.mpr (show 999 < count by omega)) (mem_range.mpr (show 99 < count by omega))
      image_name_cut
    omega
  · intro few
    apply List.Nodup.map_on _ nodup_range
    intro i inside_i j inside_j same
    exact image_name_injective (by have := mem_range.mp inside_i; omega) (by have := mem_range.mp inside_j; omega) same

end UBoot.UplHandoff
