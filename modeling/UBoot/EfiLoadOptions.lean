import UBoot.Buffers
import UBoot.Charset
import Mathlib.Data.List.TakeWhile

/-!
Load options, `lib/efi_loader/efi_load_options.c`, and the length check of device paths in
`efi_device_path.c`. A pointer into the data is an offset, and a read outside the data gives
nothing; sizes of objects in memory do not wrap. The check reads the length of a node before it
knows that the node is there.
-/
namespace UBoot.EfiLoadOptions
open UBoot.Buffers UBoot.Charset List Option

def SIZE_MAX : ℕ := 2^64-1
def SSIZE_MAX : ℕ := 2^63-1
def EINVAL : ℤ := 22

def DEVICE_PATH_TYPE_END : ℕ := 0x7f
def DEVICE_PATH_SUB_TYPE_END : ℕ := 0xff

inductive Status where
  | EFI_SUCCESS
  | EFI_INVALID_PARAMETER
deriving DecidableEq, Repr

/-- The loop of `efi_dp_check_length`: `ret` bytes are in front of the node at `dp`. -/
def dp_check_loop (data : List UInt8) (maxlen dp ret : ℕ) : Option ℤ :=
  match read 2 data (dp+2) with
  | none => none
  | some len =>
    if len < 4 then some (-1)
    else if maxlen < ret+len then some (-1)
    else
      match read 1 data dp, read 1 data (dp+1) with
      | some type, some sub_type =>
        if type = DEVICE_PATH_TYPE_END ∧ sub_type = DEVICE_PATH_SUB_TYPE_END then some ((ret+len : ℕ) : ℤ)
        else dp_check_loop data maxlen (dp+len) (ret+len)
      | _, _ => none
termination_by maxlen-ret

/-- `efi_dp_check_length` for the device path at the offset `dp`. -/
def efi_dp_check_length (data : List UInt8) (dp maxlen : ℕ) : Option ℤ :=
  if SSIZE_MAX < maxlen then some (-EINVAL) else dp_check_loop data maxlen dp 0

/-- `u16_strnlen`, from the unit `i` on. -/
def u16_strnlen_loop (unit : ℕ → Option ℕ) : ℕ → ℕ → Option ℕ
  | 0, i => some i
  | count+1, i =>
    match unit i with
    | none => none
    | some c => if c = 0 then some i else u16_strnlen_loop unit count (i+1)

def u16_strnlen (unit : ℕ → Option ℕ) (count : ℕ) : Option ℕ := u16_strnlen_loop unit count 0

/-- `struct efi_load_option`, with what its pointers point to. -/
structure LoadOption where
  attributes : ℕ
  file_path_length : ℕ
  label : List UInt16
  file_path : List UInt8
  optional_data : Option (List UInt8)
deriving DecidableEq

/-- `struct efi_load_option` as the parser fills it, the pointers as offsets into the
    data, and the size of the optional data. -/
structure Parsed where
  attributes : ℕ
  file_path_length : ℕ
  label : ℕ
  file_path : ℕ
  optional_data : ℕ
  size : ℕ
deriving DecidableEq

def invalid : Option (Status × Option Parsed) := some (.EFI_INVALID_PARAMETER,none)

def efi_deserialize_load_option (data : List UInt8) (size : ℕ) : Option (Status × Option Parsed) :=
  if size < 4+2*2 then invalid
  else do
    let attributes ← read 4 data 0
    let size := size-4
    let file_path_length ← read 2 data 4
    let size := size-2
    let label := 6
    let unit (i : ℕ) : Option ℕ := read 2 data (label+2*i)
    let len ← u16_strnlen unit (size/2-1)
    if (← unit len) ≠ 0 then invalid
    else
      let len := (len+1)*2
      if size < len then invalid
      else
        let file_path := label+len
        let size := size-len
        let len := file_path_length
        if size < len then invalid
        else
          if (← efi_dp_check_length data file_path len) < 0 then invalid
          else
            some (.EFI_SUCCESS,some ⟨attributes,file_path_length,label,file_path,file_path+len,size-len⟩)

/-- The bytes of 16 bit units. -/
def unit_bytes (units : List UInt16) : List UInt8 := units.flatMap fun unit => little 2 unit.toNat

def u16_strsize (s : List UInt16) : Option ℕ :=
  (u16_strnlen (fun i => s[i]?.map UInt16.toNat) SIZE_MAX).map fun len => (len+1)*2

/-- `efi_serialize_load_option`; `malloc` gives a buffer of the size with whatever it
    holds. Nothing is the result if a write is outside the buffer. -/
def efi_serialize_load_option (malloc : ℕ → Option (List UInt8)) (lo : LoadOption) : Option (ℕ × List UInt8) := do
  let label_len ← u16_strsize lo.label
  let size := 4+2+label_len+lo.file_path_length
  let size := match lo.optional_data with
    | some optional_data => size+(utf8_utf16_strnlen optional_data SIZE_MAX+1)*2
    | none => size
  match malloc size with
  | none => some (0,[])
  | some data =>
    let p := 0
    let data ← write data p (little 4 lo.attributes)
    let p := p+4
    let data ← write data p (little 2 lo.file_path_length)
    let p := p+2
    let data ← write data p ((unit_bytes lo.label).take label_len)
    let p := p+label_len
    let data ← write data p (lo.file_path.take lo.file_path_length)
    let p := p+lo.file_path_length
    match lo.optional_data with
    | some optional_data =>
      let data ← write data p (unit_bytes (utf8_utf16_strncpy [] optional_data SIZE_MAX).2)
      some (size,data)
    | none => some (size,data)

/-! ## Well-formed load options -/

/-- A node of a device path: its type, its sub-type and its data. -/
structure Node where
  type : UInt8
  sub_type : UInt8
  body : List UInt8
  fits : 4+body.length < 2^16

def Node.bytes (node : Node) : List UInt8 := [node.type,node.sub_type] ++ little 2 (4+node.body.length) ++ node.body

def Node.IsEnd (node : Node) : Prop :=
  node.type.toNat = DEVICE_PATH_TYPE_END ∧ node.sub_type.toNat = DEVICE_PATH_SUB_TYPE_END

structure DevicePath where
  nodes : List Node
  last : Node
  inner : ∀ node ∈ nodes, ¬ node.IsEnd
  ends : last.IsEnd

def DevicePath.bytes (path : DevicePath) : List UInt8 := path.nodes.flatMap Node.bytes ++ path.last.bytes

/-- A load option that can be written: its label and its optional data end with a
    terminator, and its file path is a chain of device paths of the length given. -/
structure WellFormed (lo : LoadOption) (label : List UInt16) (paths : List DevicePath) (data : Option (List UInt8)) :
    Prop where
  attributes : lo.attributes < 2^32
  path_length : lo.file_path_length < 2^16
  label_ends : lo.label = label ++ [0]
  label_whole : 0 ∉ label
  label_size : label.length < SIZE_MAX
  some_path : paths ≠ []
  file_path : lo.file_path = paths.flatMap DevicePath.bytes
  exact_length : lo.file_path.length = lo.file_path_length
  optional_data : lo.optional_data = data.map fun bytes => bytes ++ [0]

/-- The node at `dp` is left behind for the next one, `len` bytes further. -/
def Continues (data : List UInt8) (maxlen dp ret len : ℕ) : Prop :=
  read 2 data (dp+2) = some len ∧ 4 ≤ len ∧ ret+len ≤ maxlen ∧
    ¬ (read 1 data dp = some DEVICE_PATH_TYPE_END ∧ read 1 data (dp+1) = some DEVICE_PATH_SUB_TYPE_END)

/-- The nodes that the lengths lead to from the node at `dp`, with `ret` bytes in
    front of it. -/
inductive Reached (data : List UInt8) (maxlen : ℕ) : ℕ → ℕ → ℕ → Prop
  | here (dp ret : ℕ) : Reached data maxlen dp ret dp
  | next {dp ret len dp' : ℕ} : Continues data maxlen dp ret len → Reached data maxlen (dp+len) (ret+len) dp' →
      Reached data maxlen dp ret dp'

/-- Each node that is reached has its header inside the data. -/
def HeadersInside (data : List UInt8) (dp maxlen : ℕ) : Prop :=
  maxlen ≤ SSIZE_MAX → ∀ dp', Reached data maxlen dp 0 dp' → dp'+4 ≤ data.length

def LabelEnds (data : List UInt8) (len : ℕ) : Prop :=
  read 2 data (6+2*len) = some 0 ∧ ∀ i < len, read 2 data (6+2*i) ≠ some 0

/-- The file path behind a whole label is reached with headers inside. -/
def PathInside (data : List UInt8) : Prop :=
  ∀ len file_path_length, LabelEnds data len → read 2 data 4 = some file_path_length →
    6+(len+1)*2+file_path_length ≤ data.length → HeadersInside data (6+(len+1)*2) file_path_length

/-! ## Device paths -/

theorem read_header {data : List UInt8} {dp len : ℕ} (length : read 2 data (dp+2) = some len) : dp+4 ≤ data.length := by
  have inside := read_isSome.mp (isSome_of_mem length)
  omega

theorem stops_inside {data : List UInt8} {maxlen dp ret : ℕ} (stops : ∀ len, ¬ Continues data maxlen dp ret len)
    (inside : dp+4 ≤ data.length) : ∀ dp', Reached data maxlen dp ret dp' → dp'+4 ≤ data.length := by
  intro dp' reached
  cases reached with
  | here => exact inside
  | next goes_on _ => exact absurd goes_on (stops _)

variable {l : List ℤ} {optional_data : List UInt8} (data : List UInt8)

theorem dp_check_loop_isSome (maxlen dp ret : ℕ) :
    (dp_check_loop data maxlen dp ret).isSome ↔ ∀ dp', Reached data maxlen dp ret dp' → dp'+4 ≤ data.length := by
  induction dp, ret using dp_check_loop.induct data maxlen with
  | case1 dp ret absent =>
    rw [dp_check_loop,absent]
    constructor
    · intro some_
      exact absurd some_ (by simp)
    · intro inside
      obtain ⟨v,value⟩ := read_inside 2 data (dp+2) (inside dp (.here dp ret))
      rw [absent] at value
      cases value
  | case2 dp ret len length short =>
    rw [dp_check_loop,length]
    dsimp only
    rw [if_pos short]
    refine ⟨fun _ => stops_inside ?_ (read_header length),fun _ => rfl⟩
    rintro len' ⟨length',long,_,_⟩
    rw [length] at length'
    cases length'
    omega
  | case3 dp ret len length long beyond =>
    rw [dp_check_loop,length]
    dsimp only
    rw [if_neg long,if_pos beyond]
    refine ⟨fun _ => stops_inside ?_ (read_header length),fun _ => rfl⟩
    rintro len' ⟨length',_,within,_⟩
    rw [length] at length'
    cases length'
    omega
  | case4 dp ret len length long within type sub_type second first ends =>
    rw [dp_check_loop,length]
    dsimp only
    rw [if_neg long,if_neg within,first,second]
    dsimp only
    rw [if_pos ends]
    refine ⟨fun _ => stops_inside ?_ (read_header length),fun _ => rfl⟩
    rintro len' ⟨_,_,_,inner⟩
    exact inner ⟨ends.1 ▸ first,ends.2 ▸ second⟩
  | case5 dp ret len length long within type sub_type second first inner ih =>
    have goes_on : Continues data maxlen dp ret len := by
      refine ⟨length,by omega,by omega,?_⟩
      rw [first,second,Option.some.injEq,Option.some.injEq]
      exact inner
    rw [dp_check_loop,length]
    dsimp only
    rw [if_neg long,if_neg within,first,second]
    dsimp only
    rw [if_neg inner,ih]
    constructor
    · intro inside dp' reached
      cases reached with
      | here => exact read_header length
      | next goes_on' behind =>
        have same := goes_on'.1
        rw [length] at same
        cases same
        exact inside dp' behind
    · intro inside dp' behind
      exact inside dp' (.next goes_on behind)
  | case6 dp ret len length long within absent =>
    have inside := read_header length
    obtain ⟨type,first⟩ := read_inside 1 data dp (by omega)
    obtain ⟨sub_type,second⟩ := read_inside 1 data (dp+1) (by omega)
    exact absurd (absent type sub_type first second) id

theorem efi_dp_check_length_isSome (dp maxlen : ℕ) :
    (efi_dp_check_length data dp maxlen).isSome ↔ HeadersInside data dp maxlen := by
  rw [efi_dp_check_length,HeadersInside]
  by_cases large : SSIZE_MAX < maxlen
  · rw [if_pos large]
    exact ⟨fun _ fits => absurd fits (by omega),fun _ => rfl⟩
  · rw [if_neg large,dp_check_loop_isSome]
    exact ⟨fun inside _ => inside,fun inside => inside (by omega)⟩

theorem Node.bytes_length (node : Node) : node.bytes.length = 4+node.body.length := by
  simp only [Node.bytes,length_append,length_cons,length_nil,little_length]

/-- What the check reads of a node. -/
theorem read_node (node : Node) (front rest : List UInt8) :
    read 2 (front ++ (node.bytes ++ rest)) (front.length+2) = some node.bytes.length ∧
      read 1 (front ++ (node.bytes ++ rest)) front.length = some node.type.toNat ∧
      read 1 (front ++ (node.bytes ++ rest)) (front.length+1) = some node.sub_type.toNat := by
  have fits := node.fits
  refine ⟨?_,?_,?_⟩
  · have split : front ++ (node.bytes ++ rest) =
        (front ++ [node.type,node.sub_type]) ++ (little 2 (4+node.body.length) ++ (node.body ++ rest)) := by
      simp only [Node.bytes,append_assoc]
    rw [split,read_behind _ _ _ (little_length _ _) (by simp),number_little,Node.bytes_length,Nat.mod_eq_of_lt (by omega)]
  · have split : front ++ (node.bytes ++ rest) =
        front ++ ([node.type] ++ (node.sub_type :: (little 2 (4+node.body.length) ++ (node.body ++ rest)))) := by
      simp only [Node.bytes,append_assoc,cons_append,nil_append]
    rw [split,read_behind (n := 1) front [node.type] _ rfl rfl,number,number,mul_zero,add_zero]
  · have split : front ++ (node.bytes ++ rest) =
        (front ++ [node.type]) ++ ([node.sub_type] ++ (little 2 (4+node.body.length) ++ (node.body ++ rest))) := by
      simp only [Node.bytes,append_assoc,cons_append,nil_append]
    rw [split,@read_behind 1 (front.length+1) (front ++ [node.type]) [node.sub_type] _ rfl length_append,number,number,mul_zero,add_zero]

theorem dp_check_loop_passes (path : DevicePath) (front rest : List UInt8) (maxlen ret : ℕ)
    (within : ret+path.bytes.length ≤ maxlen) :
    dp_check_loop (front ++ (path.bytes ++ rest)) maxlen front.length ret = some ((ret+path.bytes.length : ℕ) : ℤ) := by
  obtain ⟨nodes,last,inner,ends⟩ := path
  simp only [DevicePath.bytes] at *
  induction nodes generalizing front ret with
  | nil =>
    obtain ⟨length,type,sub_type⟩ := read_node last front rest
    have some_bytes := last.bytes_length
    simp only [flatMap_nil,nil_append] at *
    rw [dp_check_loop,length]
    dsimp only
    rw [if_neg (by omega),if_neg (by omega),type,sub_type]
    dsimp only
    rw [if_pos ⟨ends.1,ends.2⟩]
  | cons node nodes ih =>
    obtain ⟨length,type,sub_type⟩ := read_node node front (nodes.flatMap Node.bytes ++ last.bytes ++ rest)
    have some_bytes := node.bytes_length
    simp only [flatMap_cons,append_assoc,length_append] at *
    rw [dp_check_loop,length]
    dsimp only
    rw [if_neg (by omega),if_neg (by omega),type,sub_type]
    dsimp only
    rw [if_neg (show ¬ (_ ∧ _) from inner node mem_cons_self),← length_append,← append_assoc front,
      ih (front ++ node.bytes) _ (fun node member => inner node (mem_cons_of_mem _ member)) (by omega)]
    congr 2
    omega

/-! ## The label -/

theorem u16_strnlen_loop_spec (unit : ℕ → Option ℕ) (count i : ℕ) (readable : ∀ j, i ≤ j → j < i+count → (unit j).isSome) :
    ∃ len, u16_strnlen_loop unit count i = some len ∧ i ≤ len ∧ len ≤ i+count ∧
      (∀ j, i ≤ j → j < len → unit j ≠ some 0) ∧ (len < i+count → unit len = some 0) := by
  induction count generalizing i with
  | zero => exact ⟨i,rfl,le_rfl,le_rfl,fun j from_ below => by omega,fun below => absurd below (by omega)⟩
  | succ count ih =>
    obtain ⟨c,value⟩ := isSome_iff_exists.mp (readable i le_rfl (by omega))
    rw [u16_strnlen_loop,value]
    dsimp only
    by_cases zero : c = 0
    · rw [if_pos zero]
      exact ⟨i,rfl,le_rfl,by omega,fun j from_ below => by omega,fun _ => zero ▸ value⟩
    rw [if_neg zero]
    obtain ⟨len,found,from_,upto,whole,ends⟩ := ih (i+1) (fun j from_ below => readable j (by omega) (by omega))
    refine ⟨len,found,by omega,by omega,?_,fun below => ends (by omega)⟩
    intro j above below
    rcases Nat.eq_or_lt_of_le above with rfl | behind
    · rw [value]
      exact fun same => zero (Option.some.inj same)
    · exact whole j behind below

theorem u16_strnlen_spec (unit : ℕ → Option ℕ) (count : ℕ) (readable : ∀ j < count, (unit j).isSome) :
    ∃ len ≤ count, u16_strnlen unit count = some len ∧ (∀ j < len, unit j ≠ some 0) ∧
      (len < count → unit len = some 0) := by
  obtain ⟨len,found,_,upto,whole,ends⟩ :=
    u16_strnlen_loop_spec unit count 0 (fun j _ below => readable j (by omega))
  exact ⟨len,by omega,found,fun j below => whole j (Nat.zero_le j) below,fun below => ends (by omega)⟩

theorem u16_strnlen_eq {unit : ℕ → Option ℕ} {count len : ℕ} (upto : len ≤ count) (ends : unit len = some 0)
    (whole : ∀ j < len, ∃ c, unit j = some c ∧ c ≠ 0) : u16_strnlen unit count = some len := by
  have scan (i : ℕ) (below : i ≤ len) (count : ℕ) (room : len ≤ i+count) :
      u16_strnlen_loop unit count i = some len := by
    induction count generalizing i with
    | zero => rw [u16_strnlen_loop,show i = len by omega]
    | succ count ih =>
      rw [u16_strnlen_loop]
      rcases Nat.eq_or_lt_of_le below with rfl | inside
      · rw [ends]
        exact if_pos rfl
      · obtain ⟨c,value,some_unit⟩ := whole i inside
        rw [value]
        dsimp only
        rw [if_neg some_unit]
        exact ih (i+1) (by omega) (by omega)
  exact scan 0 (Nat.zero_le _) count (by omega)

theorem unit_bytes_length (units : List UInt16) : (unit_bytes units).length = 2*units.length := by
  induction units with
  | nil => rfl
  | cons unit units ih =>
    rw [unit_bytes,flatMap_cons,length_append,little_length,length_cons]
    rw [unit_bytes] at ih
    omega

theorem unit_bytes_append (a b : List UInt16) : unit_bytes (a ++ b) = unit_bytes a ++ unit_bytes b :=
  flatMap_append

theorem read_unit (front : List UInt8) (units : List UInt16) (i : ℕ) {u : UInt16} (at_i : units[i]? = some u)
    (rest : List UInt8) : read 2 (front ++ (unit_bytes units ++ rest)) (front.length+2*i) = some u.toNat := by
  obtain ⟨inside,value⟩ := List.getElem?_eq_some_iff.mp at_i
  have parts : units = units.take i ++ ([u] ++ units.drop (i+1)) := by
    rw [← value,singleton_append,← drop_eq_getElem_cons inside,take_append_drop]
  have split : front ++ (unit_bytes units ++ rest) =
      (front ++ unit_bytes (units.take i)) ++ (little 2 u.toNat ++ (unit_bytes (units.drop (i+1)) ++ rest)) := by
    conv_lhs => rw [parts]
    rw [unit_bytes_append,unit_bytes_append]
    simp only [unit_bytes,flatMap_cons,flatMap_nil,append_nil,append_assoc]
  have small := u.toNat_lt
  rw [split,read_behind _ _ _ (little_length _ _)
    (by rw [length_append,unit_bytes_length,length_take,Nat.min_eq_left (by omega)]),number_little,
    Nat.mod_eq_of_lt (by omega)]

/-! ## Parsing -/

theorem deserialize_isSome :
    (efi_deserialize_load_option data data.length).isSome ↔ PathInside data := by
  rw [efi_deserialize_load_option]
  by_cases short : data.length < 4+2*2
  · rw [if_pos short]
    refine ⟨fun _ len file_path_length _ _ inside => absurd inside (by omega),fun _ => rfl⟩
  obtain ⟨attributes,first⟩ := read_inside 4 data 0 (by omega)
  obtain ⟨file_path_length,second⟩ := read_inside 2 data 4 (by omega)
  have readable (j : ℕ) (below : j ≤ (data.length-4-2)/2-1) : (read 2 data (6+2*j)).isSome :=
    read_isSome.mpr (by omega)
  obtain ⟨len,upto,scanned,whole,ends⟩ := u16_strnlen_spec (fun i => read 2 data (6+2*i))
    ((data.length-4-2)/2-1) (fun j below => readable j (by omega))
  obtain ⟨c,terminator⟩ := isSome_iff_exists.mp (readable len upto)
  rw [if_neg short,first]
  dsimp only [bind_eq_bind,bind_some]
  rw [second]
  dsimp only [bind_some]
  rw [scanned]
  dsimp only [bind_some]
  rw [terminator]
  dsimp only [bind_some]
  -- the label that the condition speaks of is the one that the scan found
  have label_is (len' : ℕ) (label : LabelEnds data len') (room : 6+(len'+1)*2 ≤ data.length) : len' = len ∧ c = 0 := by
    obtain ⟨zero,before⟩ := label
    rcases Nat.lt_trichotomy len' len with less | same | more
    · exact absurd zero (whole len' less)
    · subst same
      exact ⟨rfl,Option.some.inj (terminator.symm.trans zero)⟩
    · exact absurd (ends (by omega)) (before len more)
  by_cases unterminated : c ≠ 0
  · rw [if_pos unterminated]
    refine ⟨fun _ len' _ label _ room => ?_,fun _ => rfl⟩
    exact absurd (label_is len' label (by omega)).2 unterminated
  rw [if_neg unterminated,if_neg (by omega)]
  have zero : c = 0 := not_not.mp unterminated
  have label : LabelEnds data len := ⟨zero ▸ terminator,whole⟩
  by_cases long : data.length-4-2-(len+1)*2 < file_path_length
  · rw [if_pos long]
    refine ⟨fun _ len' file_path_length' label' value room => ?_,fun _ => rfl⟩
    rw [second] at value
    cases value
    have same := (label_is len' label' (by omega)).1
    omega
  rw [if_neg long]
  have path : PathInside data ↔ HeadersInside data (6+(len+1)*2) file_path_length := by
    constructor
    · intro inside
      exact inside len file_path_length label second (by omega)
    · intro inside len' file_path_length' label' value room
      rw [second] at value
      cases value
      rw [(label_is len' label' (by omega)).1]
      exact inside
  rw [path,← efi_dp_check_length_isSome]
  cases efi_dp_check_length data (6+(len+1)*2) file_path_length with
  | none => rfl
  | some ret =>
    dsimp only [bind_some]
    split
    · exact ⟨fun _ => rfl,fun _ => rfl⟩
    · exact ⟨fun _ => rfl,fun _ => rfl⟩

theorem deserialize_parts {attributes file_path_length : ℕ} (attributes_fit : attributes < 2^32)
    (path_length_fits : file_path_length < 2^16) {label : List UInt16} (whole : 0 ∉ label) (path : DevicePath)
    (behind : List UInt8) (exact_length : (path.bytes ++ behind).length = file_path_length)
    {data : List UInt8}
    (parts : data = little 4 attributes ++ (little 2 file_path_length ++
      (unit_bytes (label ++ [0]) ++ (path.bytes ++ behind ++ optional_data)))) :
    efi_deserialize_load_option data data.length = some (.EFI_SUCCESS,some ⟨attributes,file_path_length,6,
      6+(label.length+1)*2,6+(label.length+1)*2+file_path_length,optional_data.length⟩) := by
  have size : data.length = 6+(label.length+1)*2+file_path_length+optional_data.length := by
    rw [parts]
    simp only [length_append,little_length,unit_bytes_length,length_cons,length_nil] at exact_length ⊢
    omega
  have first : read 4 data 0 = some attributes := by
    have value := read_behind [] (little 4 attributes) (little 2 file_path_length ++
      (unit_bytes (label ++ [0]) ++ (path.bytes ++ behind ++ optional_data))) (little_length 4 attributes) rfl
    rw [nil_append,← parts,number_little,Nat.mod_eq_of_lt (by omega)] at value
    exact value
  have second : read 2 data 4 = some file_path_length := by
    rw [parts,read_behind (little 4 attributes) (little 2 file_path_length) _ (little_length _ _) (little_length _ _),
      number_little,Nat.mod_eq_of_lt (by omega)]
  have unit (i : ℕ) (u : UInt16) (at_i : (label ++ [0])[i]? = some u) : read 2 data (6+2*i) = some u.toNat := by
    have value := read_unit (little 4 attributes ++ little 2 file_path_length) _ _ at_i (path.bytes ++ behind ++ optional_data)
    rw [length_append,little_length,little_length,append_assoc,← parts] at value
    exact value
  have terminator : read 2 data (6+2*label.length) = some 0 := unit label.length 0 (by simp)
  have scanned : u16_strnlen (fun i => read 2 data (6+2*i)) ((data.length-4-2)/2-1) = some label.length := by
    refine u16_strnlen_eq (by omega) terminator ?_
    intro j below
    have at_j : (label ++ [0])[j]? = some (label[j]) := by
      rw [getElem?_append_left below,getElem?_eq_getElem below]
    refine ⟨_,unit j _ at_j,?_⟩
    intro zero
    have same : label[j] = 0 := UInt16.toNat_inj.mp zero
    exact whole (same ▸ getElem_mem below)
  have checked : efi_dp_check_length data (6+(label.length+1)*2) file_path_length = some (path.bytes.length : ℤ) := by
    have passed := dp_check_loop_passes path (little 4 attributes ++ little 2 file_path_length ++ unit_bytes (label ++ [0]))
      (behind ++ optional_data) file_path_length 0 (by rw [← exact_length,length_append]; omega)
    have split : data = little 4 attributes ++ little 2 file_path_length ++ unit_bytes (label ++ [0]) ++
        (path.bytes ++ (behind ++ optional_data)) := by
      rw [parts]
      simp only [append_assoc]
    have offset : (little 4 attributes ++ little 2 file_path_length ++ unit_bytes (label ++ [0])).length =
        6+(label.length+1)*2 := by
      simp only [length_append,little_length,unit_bytes_length,length_cons,length_nil]
      omega
    rw [← split,offset,zero_add] at passed
    rw [efi_dp_check_length,if_neg (by rw [SSIZE_MAX]; omega),passed]
  rw [efi_deserialize_load_option,if_neg (by omega),first]
  dsimp only [bind_eq_bind,bind_some]
  rw [second]
  dsimp only [bind_some]
  rw [scanned]
  dsimp only [bind_some]
  rw [terminator]
  dsimp only [bind_some]
  rw [if_neg (by simp),if_neg (by omega),if_neg (by omega),checked]
  dsimp only [bind_some]
  rw [if_neg (by omega),size]
  congr 4
  omega

/-! ## Writing and reading back -/

def fields (lo : LoadOption) : List UInt8 :=
  little 4 lo.attributes ++ (little 2 lo.file_path_length ++ (unit_bytes lo.label ++ lo.file_path))

/-- The units that are counted for the optional data, and those that are written. -/
def counted (optional_data : List UInt8) : ℕ := utf8_utf16_strnlen optional_data SIZE_MAX+1
def written (optional_data : List UInt8) : List UInt16 := (utf8_utf16_strncpy [] optional_data SIZE_MAX).2

/-- The UTF-16 form of optional data, with the terminator. -/
def utf16_form (optional_data : List UInt8) : List UInt16 := (codes SIZE_MAX optional_data).flatMap code_units ++ [0]

def optional_bytes (lo : LoadOption) : List UInt8 :=
  match lo.optional_data with
  | some optional_data => unit_bytes (utf16_form optional_data)
  | none => []

/-- The load option is written, and read back from what is written. -/
def ReadBack (malloc : ℕ → Option (List UInt8)) (lo : LoadOption) : Prop :=
  ∃ data parsed, efi_serialize_load_option malloc lo = some (data.length,data) ∧
    efi_deserialize_load_option data data.length = some (.EFI_SUCCESS,some parsed) ∧
    parsed.attributes = lo.attributes ∧
    unit_bytes lo.label <+: data.drop parsed.label ∧
    (data.drop parsed.file_path).take parsed.file_path_length = lo.file_path ∧
    (data.drop parsed.optional_data).take parsed.size = optional_bytes lo

/-- No code point of the optional data is U+0000 or a surrogate. -/
def Convertible (lo : LoadOption) : Prop :=
  ∀ optional_data ∈ lo.optional_data, ∀ code ∈ codes SIZE_MAX optional_data, code ≠ 0 ∧ ¬ Surrogate code

def Allocates (malloc : ℕ → Option (List UInt8)) : Prop := ∀ size, ∃ data, malloc size = some data ∧ data.length = size

theorem u16_strsize_eq {label : List UInt16} (whole : 0 ∉ label) (size : label.length < SIZE_MAX) :
    u16_strsize (label ++ [0]) = some ((label.length+1)*2) := by
  have scanned : u16_strnlen (fun i => (label ++ [0])[i]?.map UInt16.toNat) SIZE_MAX = some label.length := by
    refine u16_strnlen_eq size.le (by simp) ?_
    intro j below
    refine ⟨label[j].toNat,?_,?_⟩
    · rw [getElem?_append_left below,getElem?_eq_getElem below,map_some]
    · intro zero
      have same : label[j] = 0 := UInt16.toNat_inj.mp zero
      exact whole (same ▸ getElem_mem below)
  rw [u16_strsize,scanned,map_some]

section
variable {lo : LoadOption} {label : List UInt16} {paths : List DevicePath} {string : Option (List UInt8)}

theorem WellFormed.fields_length (formed : WellFormed lo label paths string) :
    (fields lo).length = 6+(label.length+1)*2+lo.file_path_length := by
  rw [fields,formed.label_ends,length_append,length_append,length_append,little_length,little_length,
    unit_bytes_length,length_append,length_singleton,formed.exact_length]
  omega

theorem writes_fields (formed : WellFormed lo label paths string) (data : List UInt8)
    (room : (fields lo).length ≤ data.length) {α : Type} (goes_on : List UInt8 → Option α) :
    (write data 0 (little 4 lo.attributes) >>= fun data =>
      write data (0+4) (little 2 lo.file_path_length) >>= fun data =>
      write data (0+4+2) ((unit_bytes lo.label).take ((label.length+1)*2)) >>= fun data =>
      write data (0+4+2+(label.length+1)*2) (lo.file_path.take lo.file_path_length) >>= goes_on) =
    goes_on (fields lo ++ data.drop (fields lo).length) := by
  have length := formed.fields_length
  have label_length : (unit_bytes lo.label).length = (label.length+1)*2 := by
    rw [unit_bytes_length,formed.label_ends,length_append,length_singleton]
    omega
  have path_length := formed.exact_length
  rw [← label_length,take_length,take_of_length_le path_length.le]
  have first := write_behind 0 [] data (little 4 lo.attributes) rfl (by rw [little_length]; omega)
  rw [nil_append,nil_append] at first
  have second := write_behind 4 (little 4 lo.attributes) (data.drop 4) (little 2 lo.file_path_length) (little_length _ _)
    (by rw [little_length,length_drop]; omega)
  have third := write_behind (4+2) (little 4 lo.attributes ++ little 2 lo.file_path_length) (data.drop (4+2)) (unit_bytes lo.label)
    (by rw [length_append,little_length,little_length]) (by rw [length_drop]; omega)
  have fourth := write_behind (4+2+(unit_bytes lo.label).length)
    (little 4 lo.attributes ++ little 2 lo.file_path_length ++ unit_bytes lo.label)
    (data.drop (4+2+(unit_bytes lo.label).length)) lo.file_path
    (by rw [length_append,length_append,little_length,little_length]) (by rw [length_drop]; omega)
  rw [first,little_length]
  dsimp only [bind_eq_bind,bind_some]
  rw [zero_add,second,little_length,drop_drop]
  dsimp only [bind_some]
  rw [third,drop_drop]
  dsimp only [bind_some]
  rw [fourth,drop_drop]
  dsimp only [bind_some]
  rw [fields]
  congr 1
  simp only [append_assoc,length_append,little_length,add_assoc]

theorem serialize_none (formed : WellFormed lo label paths none) {malloc : ℕ → Option (List UInt8)}
    (allocates : Allocates malloc) : efi_serialize_load_option malloc lo = some ((fields lo).length,fields lo) := by
  have optional : lo.optional_data = none := formed.optional_data
  have length := formed.fields_length
  obtain ⟨data,allocated,size⟩ := allocates (fields lo).length
  have strsize : u16_strsize lo.label = some ((label.length+1)*2) := by
    rw [formed.label_ends,u16_strsize_eq formed.label_whole formed.label_size]
  rw [efi_serialize_load_option,strsize]
  dsimp only [bind_eq_bind,bind_some]
  rw [optional]
  dsimp only
  rw [show 4+2+(label.length+1)*2+lo.file_path_length = (fields lo).length by omega,allocated]
  dsimp only
  have done := writes_fields formed data (by omega) (fun data => some ((fields lo).length,data))
  dsimp only [bind_eq_bind] at done
  rw [done,drop_eq_nil_of_le (by omega),append_nil]

/-- The buffer for a load option with optional data, and whether the copy stays in it. -/
theorem serialize_some {bytes : List UInt8} (formed : WellFormed lo label paths (some bytes))
    {malloc : ℕ → Option (List UInt8)} (allocates : Allocates malloc) :
    (counted (bytes ++ [0]) < (written (bytes ++ [0])).length → efi_serialize_load_option malloc lo = none) ∧
    ((written (bytes ++ [0])).length ≤ counted (bytes ++ [0]) →
      ∃ tail, (unit_bytes (written (bytes ++ [0])) ++ tail).length = counted (bytes ++ [0])*2 ∧
        efi_serialize_load_option malloc lo =
          some ((fields lo).length+counted (bytes ++ [0])*2,fields lo ++ (unit_bytes (written (bytes ++ [0])) ++ tail))) := by
  set text := unit_bytes (written (bytes ++ [0]))
  have optional : lo.optional_data = some (bytes ++ [0]) := formed.optional_data
  have length := formed.fields_length
  obtain ⟨data,allocated,size⟩ := allocates ((fields lo).length+counted (bytes ++ [0])*2)
  have strsize : u16_strsize lo.label = some ((label.length+1)*2) := by
    rw [formed.label_ends,u16_strsize_eq formed.label_whole formed.label_size]
  have done := writes_fields formed data (by omega) (fun data =>
    write data (0+4+2+(label.length+1)*2+lo.file_path_length) text >>= fun data =>
      some ((fields lo).length+counted (bytes ++ [0])*2,data))
  have serialized : efi_serialize_load_option malloc lo =
      (write (fields lo ++ data.drop (fields lo).length) (0+4+2+(label.length+1)*2+lo.file_path_length)
        text >>= fun data =>
      some ((fields lo).length+counted (bytes ++ [0])*2,data)) := by
    rw [← done,efi_serialize_load_option,strsize]
    dsimp only [bind_eq_bind,bind_some]
    rw [optional]
    dsimp only
    rw [show 4+2+(label.length+1)*2+lo.file_path_length+(utf8_utf16_strnlen (bytes ++ [0]) SIZE_MAX+1)*2 =
      (fields lo).length+counted (bytes ++ [0])*2 by rw [counted]; omega,allocated]
    rfl
  rw [serialized,show 0+4+2+(label.length+1)*2+lo.file_path_length = (fields lo).length by omega]
  constructor
  · intro long
    rw [write_outside (by rw [length_append,length_drop,unit_bytes_length]; omega)]
    rfl
  · intro fits
    have room : text.length ≤ (data.drop (fields lo).length).length := by
      rw [unit_bytes_length,length_drop]
      omega
    refine ⟨(data.drop (fields lo).length).drop text.length,?_,?_⟩
    · rw [length_append,length_drop,length_drop]
      rw [length_drop] at room
      omega
    · rw [write_behind _ _ _ _ rfl room]
      dsimp only [bind_eq_bind,bind_some]
      rw [append_assoc]

theorem deserialize_fields (formed : WellFormed lo label paths string) (behind : List UInt8) :
    efi_deserialize_load_option (fields lo ++ behind) (fields lo ++ behind).length =
      some (.EFI_SUCCESS,some ⟨lo.attributes,lo.file_path_length,6,6+(label.length+1)*2,(fields lo).length,behind.length⟩) := by
  obtain ⟨path,others,some_path⟩ := exists_cons_of_ne_nil formed.some_path
  have split : lo.file_path = path.bytes ++ others.flatMap DevicePath.bytes := by
    rw [formed.file_path,some_path,flatMap_cons]
  rw [formed.fields_length]
  refine deserialize_parts formed.attributes formed.path_length formed.label_whole path
    (others.flatMap DevicePath.bytes) ?_ ?_
  · rw [← split,formed.exact_length]
  · rw [fields,formed.label_ends,split]
    simp only [append_assoc]

theorem drop_label (formed : WellFormed lo label paths string) (behind : List UInt8) :
    unit_bytes lo.label <+: (fields lo ++ behind).drop 6 ∧
      ((fields lo ++ behind).drop (6+(label.length+1)*2)).take lo.file_path_length = lo.file_path := by
  have label_length : (unit_bytes lo.label).length = (label.length+1)*2 := by
    rw [unit_bytes_length,formed.label_ends,length_append,length_singleton]
    omega
  have front : (fields lo ++ behind).drop 6 = unit_bytes lo.label ++ (lo.file_path ++ behind) := by
    have split : fields lo ++ behind = (little 4 lo.attributes ++ little 2 lo.file_path_length) ++
        (unit_bytes lo.label ++ (lo.file_path ++ behind)) := by
      rw [fields]
      simp only [append_assoc]
    rw [split,drop_left' (by rw [length_append,little_length,little_length])]
  constructor
  · rw [front]
    exact prefix_append _ _
  · rw [← drop_drop,front,drop_left' label_length,take_left' formed.exact_length]
end

/-! ## What comes back of the optional data -/

theorem flatMap_copied (bounded : ∀ code ∈ l, code < 0x110000) (plain : ∀ code ∈ l, ¬ Surrogate code) :
    l.flatMap copied_units = l.flatMap code_units := by
  induction l with
  | nil => rfl
  | cons code l ih =>
    rw [flatMap_cons,flatMap_cons,copied_eq (bounded code mem_cons_self) (plain code mem_cons_self),
      ih (fun c member => bounded c (mem_cons_of_mem _ member)) (fun c member => plain c (mem_cons_of_mem _ member))]

theorem copied_shorter (bounded : ∀ code ∈ l, code < 0x110000) :
    (l.flatMap copied_units).length ≤ (l.flatMap code_units).length ∧
      ((l.flatMap copied_units).length = (l.flatMap code_units).length → ∀ code ∈ l, ¬ Surrogate code) := by
  induction l with
  | nil => exact ⟨le_rfl,fun _ code member => absurd member not_mem_nil⟩
  | cons code l ih =>
    obtain ⟨shorter,same⟩ := ih (fun c member => bounded c (mem_cons_of_mem _ member))
    rw [flatMap_cons,flatMap_cons,length_append,length_append]
    by_cases surrogate : Surrogate code
    · have some_unit := code_units_pos code
      rw [copied_surrogate surrogate,length_nil]
      constructor
      · omega
      · intro equal
        omega
    · rw [copied_eq (bounded code mem_cons_self) surrogate]
      constructor
      · omega
      · intro equal c member
        rcases mem_cons.mp member with rfl | behind
        · exact surrogate
        · exact same (by omega) c behind

theorem counted_shorter (l : List ℤ) :
    ((l.takeWhile (· ≠ 0)).flatMap code_units).length ≤ (l.flatMap code_units).length ∧
      (((l.takeWhile (· ≠ 0)).flatMap code_units).length = (l.flatMap code_units).length → ∀ code ∈ l, code ≠ 0) := by
  induction l with
  | nil => exact ⟨le_rfl,fun _ code member => absurd member not_mem_nil⟩
  | cons code l ih =>
    obtain ⟨shorter,same⟩ := ih
    by_cases zero : code = 0
    · have some_unit := code_units_pos code
      rw [takeWhile_cons_of_neg (by simpa using zero),flatMap_cons,length_append]
      constructor
      · exact Nat.zero_le _
      · intro equal
        rw [flatMap_nil,length_nil] at equal
        omega
    · rw [takeWhile_cons_of_pos (by simpa using zero),flatMap_cons,flatMap_cons,length_append,
        length_append]
      constructor
      · omega
      · intro equal c member
        rcases mem_cons.mp member with rfl | behind
        · exact zero
        · exact same (by omega) c behind

theorem counted_eq (optional_data : List UInt8) :
    counted optional_data = (((codes SIZE_MAX optional_data).takeWhile (· ≠ 0)).flatMap code_units).length+1 := by
  rw [counted,utf8_utf16_strnlen,utf8_utf16_strnlen_loop_eq,zero_add]

theorem written_eq (optional_data : List UInt8) :
    written optional_data = (codes SIZE_MAX optional_data).flatMap copied_units ++ [0] := by
  rw [written,utf8_utf16_strncpy,utf8_utf16_loop_eq,nil_append]

theorem zero_not_form (bounded : ∀ code ∈ l, code < 0x110000) (whole : ∀ code ∈ l, code ≠ 0) :
    0 ∉ l.flatMap code_units := by
  intro member
  obtain ⟨code,inside,unit⟩ := mem_flatMap.mp member
  exact zero_not_unit (bounded code inside) (whole code inside) unit

theorem convertible_of_same {optional_data tail : List UInt8}
    (same : unit_bytes (written optional_data) ++ tail = unit_bytes (utf16_form optional_data))
    (length : (unit_bytes (written optional_data) ++ tail).length = counted optional_data*2) :
    ∀ code ∈ codes SIZE_MAX optional_data, code ≠ 0 ∧ ¬ Surrogate code := by
  have bounded : ∀ code ∈ codes SIZE_MAX optional_data, code < 0x110000 := fun code member => codes_lt member
  obtain ⟨_,no_zero⟩ := counted_shorter (codes SIZE_MAX optional_data)
  obtain ⟨shorter,no_surrogate⟩ := copied_shorter bounded
  rw [same,unit_bytes_length,utf16_form,counted_eq,length_append,length_singleton] at length
  have whole := no_zero (by omega)
  have zero_free := zero_not_form bounded whole
  -- the terminator that is written is the one of the form, which has no zero before it
  have all_copied : ((codes SIZE_MAX optional_data).flatMap copied_units).length =
      ((codes SIZE_MAX optional_data).flatMap code_units).length := by
    rcases Nat.eq_or_lt_of_le shorter with equal | less
    · exact equal
    have terminator := @read_unit [] (written optional_data)
      ((codes SIZE_MAX optional_data).flatMap copied_units).length 0 (by rw [written_eq]; simp) tail
    have unit := read_unit [] (utf16_form optional_data)
      ((codes SIZE_MAX optional_data).flatMap copied_units).length
      (by rw [utf16_form,getElem?_append_left less,getElem?_eq_getElem less]) []
    rw [append_nil,← same,terminator] at unit
    have zero := UInt16.toNat_inj.mp (Option.some.inj unit)
    exact absurd (zero ▸ getElem_mem less) zero_free
  exact fun code member => ⟨whole code member,no_surrogate all_copied code member⟩

theorem written_convertible
    (convertible : ∀ code ∈ codes SIZE_MAX optional_data, code ≠ 0 ∧ ¬ Surrogate code) :
    written optional_data = utf16_form optional_data ∧ counted optional_data = (utf16_form optional_data).length := by
  constructor
  · rw [written_eq,utf16_form,flatMap_copied (fun code member => codes_lt member) (fun code member => (convertible code member).2)]
  · have all : (codes SIZE_MAX optional_data).takeWhile (· ≠ 0) = codes SIZE_MAX optional_data := by
      refine takeWhile_eq_self_iff.mpr ?_
      intro code member
      simpa using (convertible code member).1
    rw [counted_eq,all,utf16_form,length_append,length_singleton]

section
variable {lo : LoadOption} {label : List UInt16} {paths : List DevicePath} {string : Option (List UInt8)}
  {malloc : ℕ → Option (List UInt8)}

theorem read_back_iff (formed : WellFormed lo label paths string) (behind : List UInt8)
    (serialized : efi_serialize_load_option malloc lo = some ((fields lo).length+behind.length,fields lo ++ behind)) :
    ReadBack malloc lo ↔ behind = optional_bytes lo := by
  have parsed := deserialize_fields formed behind
  obtain ⟨label_there,path_there⟩ := drop_label formed behind
  constructor
  · rintro ⟨data,result,written_,read_,_,_,_,optional⟩
    rw [serialized] at written_
    obtain ⟨_,rfl⟩ := Prod.mk.inj (Option.some.inj written_)
    rw [parsed] at read_
    cases read_
    rw [drop_left,take_length] at optional
    exact optional
  · intro same
    refine ⟨_,_,by rw [serialized,length_append],parsed,rfl,label_there,path_there,?_⟩
    rw [drop_left,take_length]
    exact same

theorem read_back_iff_convertible (formed : WellFormed lo label paths string) (allocates : Allocates malloc) :
    ReadBack malloc lo ↔ Convertible lo := by
  have optional := formed.optional_data
  cases string with
  | none =>
    have serialized := serialize_none formed allocates
    rw [read_back_iff formed [] (by rw [serialized,append_nil,length_nil,add_zero]),optional_bytes,
      optional,Convertible,optional]
    exact ⟨fun _ optional_data member => absurd member (by simp),fun _ => rfl⟩
  | some bytes =>
    rw [map_some] at optional
    obtain ⟨overrun,fits⟩ := serialize_some formed allocates
    rw [Convertible,optional]
    constructor
    · intro back
      by_cases long : counted (bytes ++ [0]) < (written (bytes ++ [0])).length
      · obtain ⟨data,_,serialized,_⟩ := back
        rw [overrun long] at serialized
        cases serialized
      · obtain ⟨tail,length,serialized⟩ := fits (by omega)
        rw [← length] at serialized
        rw [read_back_iff formed _ serialized,optional_bytes,optional] at back
        rintro optional_data ⟨⟩
        exact convertible_of_same back length
    · intro convertible
      obtain ⟨same,count⟩ := written_convertible (convertible (bytes ++ [0]) rfl)
      obtain ⟨tail,length,serialized⟩ := fits (by rw [same,count])
      have no_tail : tail = [] := by
        rw [length_append,unit_bytes_length,same,count] at length
        exact length_eq_zero_iff.mp (by omega)
      rw [← length] at serialized
      rw [read_back_iff formed _ serialized,optional_bytes,optional,no_tail,append_nil,same]
end

/-- Load options come back and the parsers stay inside the data, each under its
    condition. -/
theorem load_options_read_back (malloc : ℕ → Option (List UInt8)) (allocates : Allocates malloc) :
    (∀ lo label paths string, WellFormed lo label paths string → (ReadBack malloc lo ↔ Convertible lo)) ∧
      (∀ data, (efi_deserialize_load_option data data.length).isSome ↔ PathInside data) ∧
      (∀ data, (efi_dp_check_length data 0 data.length).isSome ↔ HeadersInside data 0 data.length) := by
  refine ⟨?_,deserialize_isSome,?_⟩
  · intro lo label paths string formed
    exact read_back_iff_convertible formed allocates
  · intro data
    exact efi_dp_check_length_isSome data 0 data.length

def end_path : DevicePath := ⟨[],⟨0x7f,0xff,[],by decide⟩,fun _ member => absurd member List.not_mem_nil,⟨rfl,rfl⟩⟩

/-- A load option with the label "A", an empty device path and no optional data. -/
def short_option : LoadOption := ⟨1,4,[65,0],[0x7f,0xff,4,0],none⟩

theorem short_option_formed : WellFormed short_option [65] [end_path] none := by
  constructor
  case some_path => exact cons_ne_nil _ _
  all_goals decide

theorem load_options_read_back_short :
    ReadBack (fun size => some (List.replicate size 0)) short_option := by
  have allocates : Allocates (fun size => some (List.replicate size 0)) := fun size => ⟨_,rfl,List.length_replicate⟩
  have back := (load_options_read_back _ allocates).1 short_option [65] [end_path] none short_option_formed
  exact back.mpr fun optional_data member => absurd member (by simp [short_option])

/-- Eight zero bytes are a load option with an empty label and no file path, whose
    length is read two bytes behind the end. -/
theorem short_option_read_outside :
    ¬ ∀ data : List UInt8, (efi_deserialize_load_option data data.length).isSome := by
  intro inside
  have short := (deserialize_isSome (List.replicate 8 0)).mp (inside _)
  have label : LabelEnds (List.replicate 8 0) 0 := ⟨by decide,fun i below => absurd below (Nat.not_lt_zero i)⟩
  have header := short 0 0 label (by decide) (by decide) (by decide) 8 (.here 8 0)
  exact absurd header (by decide)

end UBoot.EfiLoadOptions
