import UBoot.FatFileWrite

/-!
Sectors of a FAT volume on a device with blocks of another size, `fs/fat/fat.c`: `disk_rw` moves the
range in three parts, the end of the block it begins in, whole blocks, and the front of the block it
ends in. The number of the block is kept in 32 bits.
-/
namespace UBoot.FatSectors
open UBoot.Memory UBoot.FatFile List

/-- A device with the partition of the volume. Transfers of some blocks may fail. -/
structure Device where
  blksz : ℕ
  start : ℕ
  fat_sect_size : ℕ
  /-- Whether reading or writing a number of blocks succeeds. -/
  transfers : (read : Bool) → (block count : ℕ) → Bool
  /-- Whether `malloc_cache_aligned` gives a block. -/
  allocates : Bool

/-- The bytes of the device and of the memory, and what `disk_rw` keeps in variables. -/
structure Transfer where
  bytes : ℕ → UInt8
  memory : ℕ → UInt8
  buf : ℕ
  rem : ℕ
  s : ℕ

/-- `sect_to_block`: the block of a sector, and the sectors in front of it in the block. -/
def sect_to_block (dev : Device) (sect : ℕ) : ℕ × ℕ :=
  if dev.fat_sect_size ≠ 0 ∧ dev.fat_sect_size < dev.blksz then
    let div := dev.blksz/dev.fat_sect_size
    (sect/div,sect%div)
  else if dev.fat_sect_size ≠ 0 ∧ dev.fat_sect_size > dev.blksz then
    (sect*(dev.fat_sect_size/dev.blksz)%2^32,0)
  else (sect,0)

def Device.place (dev : Device) (s : ℕ) : ℕ := (dev.start+s)*dev.blksz

/-- A part that lies in one block, as the first and the last part do: the block is read, and
    for a write it is changed and written back. -/
def block_part (dev : Device) (read : Bool) (offset size : ℕ) (t : Transfer) : Bool × Transfer :=
  if ¬ dev.transfers true (dev.start+t.s) 1 then (false,t)
  else
    let block := load t.bytes (dev.place t.s) dev.blksz
    let next := { t with buf := t.buf+size, rem := t.rem-size, s := (t.s+1)%2^32 }
    if read then (true,{ next with memory := store t.memory t.buf ((block.drop offset).take size) })
    else if ¬ dev.transfers false (dev.start+t.s) 1 then (false,t)
    else (true,{ next with bytes := store t.bytes (dev.place t.s) (overlay block offset (load t.memory t.buf size)) })

def whole_blocks (dev : Device) (read : Bool) (t : Transfer) : Bool × Transfer :=
  let n := t.rem/dev.blksz
  if ¬ dev.transfers read (dev.start+t.s) n then (false,t)
  else
    let next := { t with buf := t.buf+n*dev.blksz, rem := t.rem%dev.blksz, s := (t.s+n)%2^32 }
    if read then (true,{ next with memory := store t.memory t.buf (load t.bytes (dev.place t.s) (n*dev.blksz)) })
    else (true,{ next with bytes := store t.bytes (dev.place t.s) (load t.memory t.buf (n*dev.blksz)) })

def rest_parts (dev : Device) (read : Bool) (t : Transfer) : Bool × Transfer :=
  let (moved,t) := if t.rem > dev.blksz then whole_blocks dev read t else (true,t)
  if ¬ moved then (false,t)
  else if t.rem ≠ 0 then block_part dev read 0 t.rem t
  else (true,t)

/-- `disk_rw`: the number of sectors or `-1`, with the device and the memory behind it. -/
def disk_rw (dev : Device) (sect nr_sect : ℕ) (bytes memory : ℕ → UInt8) (buf : ℕ) (read : Bool) : ℤ × Transfer :=
  let rem := nr_sect*dev.fat_sect_size%2^32
  let (s,offset) := sect_to_block dev sect
  let t : Transfer := ⟨bytes,memory,buf,rem,s⟩
  let offset := offset*dev.fat_sect_size
  if dev.fat_sect_size ≠ 0 ∧ ¬ dev.allocates then (-1,t)
  else
    let (moved,t) :=
      if dev.fat_sect_size ≠ 0 then block_part dev read offset (min rem (dev.blksz-offset)) t else (true,t)
    let (moved,t) := if moved then rest_parts dev read t else (false,t)
    (if moved then nr_sect else -1,t)

def disk_read (dev : Device) (sect nr_sect : ℕ) (bytes memory : ℕ → UInt8) (buf : ℕ) : ℤ × Transfer :=
  disk_rw dev sect nr_sect bytes memory buf true

def disk_write (dev : Device) (sect nr_sect : ℕ) (bytes memory : ℕ → UInt8) (buf : ℕ) : ℤ × Transfer :=
  disk_rw dev sect nr_sect bytes memory buf false

/-! ## Parts of a range -/

/-- The transfer behind a number of bytes that were moved at a place of the device. -/
def moved (read : Bool) (a size : ℕ) (t : Transfer) : Transfer :=
  { t with
    bytes := if read then t.bytes else store t.bytes a (load t.memory t.buf size)
    memory := if read then store t.memory t.buf (load t.bytes a size) else t.memory
    buf := t.buf+size
    rem := t.rem-size }

theorem moved_moved (read : Bool) (a size size' : ℕ) (t : Transfer) :
    moved read (a+size) size' (moved read a size t) = moved read a (size+size') t := by
  cases read with
  | true =>
    have joined := store_append t.memory t.buf (load t.bytes a size) (load t.bytes (a+size) size')
    rw [← load_append,load_length] at joined
    simp only [moved,if_true,joined,add_assoc,Nat.sub_sub]
  | false =>
    have joined := store_append t.bytes a (load t.memory t.buf size) (load t.memory (t.buf+size) size')
    rw [← load_append,load_length] at joined
    simp only [moved,Bool.false_eq_true,if_false,joined,add_assoc,Nat.sub_sub]

/-- Every transfer succeeds, and there is memory for a block. -/
def Succeeds (dev : Device) : Prop := (∀ read block count, dev.transfers read block count = true) ∧ dev.allocates = true

section
variable {dev : Device} (succeeds : Succeeds dev)
include succeeds

theorem block_part_spec (read : Bool) {offset size : ℕ} (inside : offset+size ≤ dev.blksz) (t : Transfer) :
    block_part dev read offset size t =
      (true,{ moved read (dev.place t.s+offset) size t with s := (t.s+1)%2^32 }) := by
  unfold block_part
  cases read with
  | true =>
    have part : ((load t.bytes (dev.place t.s) dev.blksz).drop offset).take size = load t.bytes (dev.place t.s+offset) size := by
      have split : dev.blksz = offset+(dev.blksz-offset) := by omega
      rw [split,load_drop,load_take _ _ (by omega)]
    simp [succeeds.1,moved,part]
  | false =>
    have part := @store_overlay t.bytes (dev.place t.s) offset dev.blksz (load t.memory t.buf size) (by simpa using inside)
    simp [succeeds.1,moved,part]

theorem whole_blocks_spec (read : Bool) (t : Transfer) :
    whole_blocks dev read t = (true,{ moved read (dev.place t.s) (t.rem/dev.blksz*dev.blksz) t with
      s := (t.s+t.rem/dev.blksz)%2^32 }) := by
  have left : t.rem-t.rem/dev.blksz*dev.blksz = t.rem%dev.blksz := by
    rw [Nat.mod_eq_sub,mul_comm]
  unfold whole_blocks
  cases read <;> simp [succeeds.1,moved,left]

end

/-- Parts that are moved one after another, each given by its place and its size. -/
def run (read : Bool) (parts : List (ℕ × ℕ)) (t : Transfer) : Transfer :=
  parts.foldl (fun t part => moved read part.1 part.2 t) t

/-- Parts that make up one range of the device from `a` on. -/
def Follows : ℕ → List (ℕ × ℕ) → Prop
  | _, [] => True
  | a, (b,size) :: rest => b = a ∧ Follows (a+size) rest

/-- Parts that are not empty, each of them at its place in the range or at a lower one. -/
def AtMost : ℕ → List (ℕ × ℕ) → Prop
  | _, [] => True
  | a, (b,size) :: rest => b ≤ a ∧ 0 < size ∧ AtMost (a+size) rest

def total (parts : List (ℕ × ℕ)) : ℕ := (parts.map (·.2)).sum

theorem moved_none (read : Bool) (a : ℕ) (t : Transfer) : moved read a 0 t = t := by
  cases read <;> simp [moved,load]

theorem run_follows (read : Bool) {a : ℕ} {parts : List (ℕ × ℕ)} (follows : Follows a parts) (t : Transfer) :
    run read parts t = moved read a (total parts) t := by
  induction parts generalizing a t with
  | nil => exact (moved_none read a t).symm
  | cons part rest ih =>
    obtain ⟨b,size⟩ := part
    obtain ⟨place,behind⟩ := follows
    have := ih behind (moved read b size t)
    rw [← place,moved_moved] at this
    simpa [run,total,place] using this

theorem run_read_below (parts : List (ℕ × ℕ)) (t : Transfer) :
    (run true parts t).bytes = t.bytes ∧ ∀ i < t.buf, (run true parts t).memory i = t.memory i := by
  induction parts generalizing t with
  | nil => exact ⟨rfl,fun i _ => rfl⟩
  | cons part rest ih =>
    obtain ⟨device,memory⟩ := ih (moved true part.1 part.2 t)
    refine ⟨device,fun i below => ?_⟩
    have here := memory i (by simp only [moved]; omega)
    rw [run,foldl_cons]
    refine here.trans ?_
    exact store_below t.memory _ below

theorem run_read_first (a : ℕ) {size : ℕ} (some_bytes : 0 < size) (rest : List (ℕ × ℕ)) (t : Transfer) :
    (run true ((a,size) :: rest) t).memory t.buf = t.bytes a := by
  have kept := (run_read_below rest (moved true a size t)).2 t.buf (by simp only [moved]; omega)
  have first : (load t.bytes a size)[0]? = some (t.bytes a) := by
    obtain ⟨n,rfl⟩ : ∃ n, size = n+1 := ⟨size-1,by omega⟩
    rw [load_succ]
    rfl
  rw [run,foldl_cons]
  exact kept.trans (store_inside t.memory first)

theorem run_misread {a : ℕ} {parts : List (ℕ × ℕ)} (low : AtMost a parts) (astray : ¬ Follows a parts) :
    ∃ bytes : ℕ → UInt8, ∀ memory buf rem s, ∃ k < total parts,
      (run true parts ⟨bytes,memory,buf,rem,s⟩).memory (buf+k) ≠ bytes (a+k) := by
  induction parts generalizing a with
  | nil => exact absurd trivial astray
  | cons part rest ih =>
    obtain ⟨b,size⟩ := part
    obtain ⟨lower,some_bytes,low_rest⟩ := low
    by_cases here : b = a
    · obtain ⟨bytes,misread⟩ := ih low_rest fun behind => astray ⟨here,behind⟩
      refine ⟨bytes,fun memory buf rem s => ?_⟩
      obtain ⟨k,inside,differ⟩ := misread (store memory buf (load bytes b size)) (buf+size) (rem-size) s
      refine ⟨size+k,by simp [total] at inside ⊢; omega,?_⟩
      rw [← add_assoc,← add_assoc]
      exact differ
    · refine ⟨fun i => if i < a then 0 else 1,fun memory buf rem s => ⟨0,?_,?_⟩⟩
      · simp [total]
        omega
      · have read := run_read_first b some_bytes rest ⟨fun i => if i < a then 0 else 1,memory,buf,rem,s⟩
        simp only [add_zero]
        rw [read]
        simp [show b < a by omega]

/-! ## The parts of a transfer -/

theorem run_block (read : Bool) (parts : List (ℕ × ℕ)) (t : Transfer) (s : ℕ) :
    run read parts { t with s := s } = { run read parts t with s := s } := by
  induction parts generalizing t with
  | nil => rfl
  | cons part rest ih => exact ih (moved read part.1 part.2 t)

def parts_from (dev : Device) (b rem : ℕ) : List (ℕ × ℕ) :=
  if rem > dev.blksz then
    (dev.place (b%2^32),rem/dev.blksz*dev.blksz) ::
      if rem%dev.blksz ≠ 0 then [(dev.place ((b+rem/dev.blksz)%2^32),rem%dev.blksz)] else []
  else if rem ≠ 0 then [(dev.place (b%2^32),rem)] else []

/-- The parts of `nr_sect` sectors from `sect` on. -/
def parts (dev : Device) (sect nr_sect : ℕ) : List (ℕ × ℕ) :=
  let a := sect*dev.fat_sect_size
  let size := min (nr_sect*dev.fat_sect_size) (dev.blksz-a%dev.blksz)
  (dev.place (a/dev.blksz%2^32)+a%dev.blksz,size) ::
    parts_from dev (a/dev.blksz+1) (nr_sect*dev.fat_sect_size-size)

/-- The sizes are powers of two from 512 to 4096. -/
def Sizes (dev : Device) : Prop :=
  (∃ b, 9 ≤ b ∧ b ≤ 12 ∧ dev.blksz = 2^b) ∧ ∃ f, 9 ≤ f ∧ f ≤ 12 ∧ dev.fat_sect_size = 2^f

theorem Sizes.divide {dev : Device} (sizes : Sizes dev) :
    0 < dev.blksz ∧ 0 < dev.fat_sect_size ∧ (dev.fat_sect_size ∣ dev.blksz ∨ dev.blksz ∣ dev.fat_sect_size) := by
  obtain ⟨⟨b,-,-,b_is⟩,f,-,-,f_is⟩ := sizes
  rw [b_is,f_is]
  refine ⟨by positivity,by positivity,?_⟩
  rcases le_total f b with le | le
  · exact .inl (pow_dvd_pow 2 le)
  · exact .inr (pow_dvd_pow 2 le)

theorem sect_to_block_spec {dev : Device} (sizes : Sizes dev) {sect : ℕ} (sect_u32 : sect < 2^32) :
    (sect_to_block dev sect).1 = sect*dev.fat_sect_size/dev.blksz%2^32 ∧
      (sect_to_block dev sect).2*dev.fat_sect_size = sect*dev.fat_sect_size%dev.blksz := by
  obtain ⟨block,sector,divides⟩ := sizes.divide
  unfold sect_to_block
  by_cases less : dev.fat_sect_size < dev.blksz
  · obtain ⟨div,blksz_is⟩ : dev.fat_sect_size ∣ dev.blksz := by
      rcases divides with divides | divides
      · exact divides
      · have := Nat.le_of_dvd sector divides
        omega
    rw [if_pos ⟨by omega,less⟩,blksz_is,Nat.mul_div_cancel_left div sector,mul_comm sect,Nat.mul_mod_mul_left,
      Nat.mul_div_mul_left _ _ sector]
    have lower : sect/div ≤ sect := Nat.div_le_self sect div
    have small : sect/div%2^32 = sect/div := Nat.mod_eq_of_lt (by omega)
    exact ⟨small.symm,mul_comm _ _⟩
  · rw [if_neg fun both => less both.2]
    by_cases more : dev.fat_sect_size > dev.blksz
    · obtain ⟨r,size_is⟩ : dev.blksz ∣ dev.fat_sect_size := by
        rcases divides with divides | divides
        · have := Nat.le_of_dvd block divides
          omega
        · exact divides
      rw [if_pos ⟨by omega,more⟩,size_is,Nat.mul_div_cancel_left r block]
      have shape : sect*(dev.blksz*r) = dev.blksz*(sect*r) := by ring
      rw [shape,Nat.mul_div_cancel_left _ block,Nat.mul_mod_right]
      exact ⟨rfl,zero_mul _⟩
    · have same : dev.fat_sect_size = dev.blksz := by omega
      rw [if_neg fun both => more both.2,same,Nat.mul_div_cancel _ block,Nat.mul_mod_left]
      exact ⟨(Nat.mod_eq_of_lt sect_u32).symm,zero_mul _⟩

section
variable {dev : Device} (succeeds : Succeeds dev)
include succeeds

theorem last_part_spec (read : Bool) {b : ℕ} {t : Transfer} (at_block : t.s = b%2^32) (fits : t.rem ≤ dev.blksz) :
    ∃ s, (if t.rem ≠ 0 then block_part dev read 0 t.rem t else (true,t)) =
      (true,{ run read (if t.rem ≠ 0 then [(dev.place (b%2^32),t.rem)] else []) t with s := s }) := by
  by_cases left : t.rem ≠ 0
  · rw [if_pos left,if_pos left,block_part_spec succeeds read (by omega) t,at_block]
    exact ⟨_,rfl⟩
  · rw [if_neg left,if_neg left]
    exact ⟨t.s,rfl⟩

theorem rest_parts_spec (read : Bool) {b : ℕ} {t : Transfer} (at_block : t.s = b%2^32) (block : 0 < dev.blksz) :
    ∃ s, rest_parts dev read t = (true,{ run read (parts_from dev b t.rem) t with s := s }) := by
  unfold rest_parts parts_from
  by_cases whole : t.rem > dev.blksz
  · have left : t.rem-t.rem/dev.blksz*dev.blksz = t.rem%dev.blksz := by
      rw [Nat.mod_eq_sub,mul_comm]
    have small : t.rem%dev.blksz ≤ dev.blksz := (Nat.mod_lt _ block).le
    have next : (t.s+t.rem/dev.blksz)%2^32 = (b+t.rem/dev.blksz)%2^32 := by
      rw [at_block,Nat.mod_add_mod]
    let t' : Transfer :=
      { moved read (dev.place t.s) (t.rem/dev.blksz*dev.blksz) t with s := (t.s+t.rem/dev.blksz)%2^32 }
    have rem_is : t'.rem = t.rem%dev.blksz := left
    obtain ⟨s,last⟩ := @last_part_spec dev succeeds read (b+t.rem/dev.blksz) t' next (by rw [rem_is]; exact small)
    rw [rem_is,run_block] at last
    rw [if_pos whole,if_pos whole,whole_blocks_spec succeeds read t]
    refine ⟨s,?_⟩
    change (if ¬ (true = true) then (false,t') else if t'.rem ≠ 0 then block_part dev read 0 t'.rem t' else (true,t')) = _
    rw [if_neg (by simp),rem_is,last,at_block]
    rfl
  · obtain ⟨s,last⟩ := last_part_spec succeeds read at_block (by omega : t.rem ≤ dev.blksz)
    rw [if_neg whole,if_neg whole]
    exact ⟨s,last⟩

theorem disk_rw_spec (sizes : Sizes dev) (read : Bool) {sect nr_sect : ℕ} (sect_u32 : sect < 2^32)
    (fits : nr_sect*dev.fat_sect_size < 2^32) (bytes memory : ℕ → UInt8) (buf : ℕ) :
    ∃ s s', disk_rw dev sect nr_sect bytes memory buf read = ((nr_sect : ℤ),
      { run read (parts dev sect nr_sect) ⟨bytes,memory,buf,nr_sect*dev.fat_sect_size,s⟩ with s := s' }) := by
  obtain ⟨block,sector,-⟩ := sizes.divide
  obtain ⟨at_block,offset⟩ := sect_to_block_spec sizes sect_u32
  have inside := Nat.mod_lt (sect*dev.fat_sect_size) block
  let s := (sect_to_block dev sect).1
  let size := min (nr_sect*dev.fat_sect_size) (dev.blksz-sect*dev.fat_sect_size%dev.blksz)
  let t : Transfer := ⟨bytes,memory,buf,nr_sect*dev.fat_sect_size,s⟩
  let t' : Transfer :=
    { moved read (dev.place s+sect*dev.fat_sect_size%dev.blksz) size t with s := (s+1)%2^32 }
  have next : t'.s = (sect*dev.fat_sect_size/dev.blksz+1)%2^32 := by
    change ((sect_to_block dev sect).1+1)%2^32 = _
    rw [at_block,Nat.mod_add_mod]
  obtain ⟨s',rest⟩ := rest_parts_spec succeeds read next block
  refine ⟨s,s',?_⟩
  have first := block_part_spec succeeds read (by omega : sect*dev.fat_sect_size%dev.blksz+size ≤ dev.blksz) t
  unfold disk_rw
  rw [Nat.mod_eq_of_lt fits]
  dsimp only
  rw [if_neg (by simp [succeeds.2]),if_pos (by omega : dev.fat_sect_size ≠ 0),offset,first]
  change ((if (rest_parts dev read t').1 then (nr_sect : ℤ) else -1),(rest_parts dev read t').2) = _
  rw [rest,run_block,if_pos rfl]
  have place : dev.place s = dev.place (sect*dev.fat_sect_size/dev.blksz%2^32) := congrArg dev.place at_block
  rw [parts,← place]
  rfl

end

/-! ## The whole range -/

section
variable {dev : Device}

/-- The blocks at which the parts of a range begin have numbers of 32 bits: the first one,
    the next one if the range reaches it, and the last one if the range ends inside it. -/
def Numbered (dev : Device) (sect nr_sect : ℕ) : Prop :=
  let a := sect*dev.fat_sect_size
  let behind := (sect+nr_sect)*dev.fat_sect_size
  a/dev.blksz < 2^32 ∧ ((a/dev.blksz+1)*dev.blksz < behind → a/dev.blksz+1 < 2^32) ∧
    (behind%dev.blksz ≠ 0 → behind/dev.blksz < 2^32)

theorem place_eq (b : ℕ) : dev.place b = dev.start*dev.blksz+b*dev.blksz := by
  rw [Device.place,add_mul]

theorem place_low (b : ℕ) : dev.place (b%2^32) ≤ dev.place b := by
  rw [place_eq,place_eq]
  exact Nat.add_le_add_left (Nat.mul_le_mul_right _ (Nat.mod_le b _)) _

theorem place_exact (block : 0 < dev.blksz) (b : ℕ) : dev.place (b%2^32) = dev.place b ↔ b < 2^32 := by
  rw [place_eq,place_eq,Nat.add_right_inj,Nat.mul_left_inj (by omega)]
  constructor
  · intro same
    have := Nat.mod_lt b (show 0 < 2^32 by norm_num)
    omega
  · exact Nat.mod_eq_of_lt

theorem parts_from_follows (block : 0 < dev.blksz) (b rem : ℕ) :
    Follows (dev.place b) (parts_from dev b rem) ↔
      (0 < rem → b < 2^32) ∧ (dev.blksz < rem → rem%dev.blksz ≠ 0 → b+rem/dev.blksz < 2^32) := by
  have next : dev.place b+rem/dev.blksz*dev.blksz = dev.place (b+rem/dev.blksz) := by
    rw [place_eq,place_eq]
    ring
  unfold parts_from
  split
  next whole =>
    have some_bytes : 0 < rem := by omega
    rw [Follows,next,place_exact block]
    split
    next left =>
      rw [Follows,Follows,place_exact block]
      exact ⟨fun ⟨first,last,_⟩ => ⟨fun _ => first,fun _ _ => last⟩,
        fun ⟨first,last⟩ => ⟨first some_bytes,last whole left,trivial⟩⟩
    next none_left =>
      exact ⟨fun ⟨first,_⟩ => ⟨fun _ => first,fun _ left => absurd left none_left⟩,
        fun ⟨first,_⟩ => ⟨first some_bytes,trivial⟩⟩
  next small =>
    split
    next left =>
      rw [Follows,Follows,place_exact block]
      exact ⟨fun ⟨first,_⟩ => ⟨fun _ => first,fun whole => absurd whole small⟩,
        fun ⟨first,_⟩ => ⟨first (by omega),trivial⟩⟩
    next none_left =>
      exact ⟨fun _ => ⟨fun some_bytes => by omega,fun whole => absurd whole small⟩,fun _ => trivial⟩

theorem parts_from_low (block : 0 < dev.blksz) (b rem : ℕ) : AtMost (dev.place b) (parts_from dev b rem) := by
  have next : dev.place b+rem/dev.blksz*dev.blksz = dev.place (b+rem/dev.blksz) := by
    rw [place_eq,place_eq]
    ring
  unfold parts_from
  split
  next whole =>
    have some_blocks : 0 < rem/dev.blksz*dev.blksz := mul_pos (Nat.div_pos (by omega) block) block
    refine ⟨place_low b,some_blocks,?_⟩
    rw [next]
    split
    next left => exact ⟨place_low _,by omega,trivial⟩
    next none_left => trivial
  next small =>
    split
    next left => exact ⟨place_low b,by omega,trivial⟩
    next none_left => trivial

theorem parts_from_total (b rem : ℕ) : total (parts_from dev b rem) = rem := by
  have whole_rest := Nat.div_add_mod' rem dev.blksz
  unfold parts_from
  split
  next whole =>
    split
    next left => simpa [total] using whole_rest
    next none_left =>
      simp [total]
      omega
  next small =>
    split
    next left => simp [total]
    next none_left =>
      simp [total]
      omega

theorem parts_cases (block : 0 < dev.blksz) (sect nr_sect : ℕ) :
    (∃ first, sect*dev.fat_sect_size/dev.blksz = first ∧ (sect+nr_sect)*dev.fat_sect_size ≤ (first+1)*dev.blksz ∧
      parts dev sect nr_sect =
        [(dev.place (first%2^32)+sect*dev.fat_sect_size%dev.blksz,nr_sect*dev.fat_sect_size)]) ∨
    ∃ first rem, sect*dev.fat_sect_size/dev.blksz = first ∧ 0 < rem ∧
      (sect+nr_sect)*dev.fat_sect_size = rem+(first+1)*dev.blksz ∧
      nr_sect*dev.fat_sect_size = dev.blksz-sect*dev.fat_sect_size%dev.blksz+rem ∧
      parts dev sect nr_sect =
        (dev.place (first%2^32)+sect*dev.fat_sect_size%dev.blksz,dev.blksz-sect*dev.fat_sect_size%dev.blksz) ::
          parts_from dev (first+1) rem := by
  have whole := Nat.div_add_mod' (sect*dev.fat_sect_size) dev.blksz
  have inside := Nat.mod_lt (sect*dev.fat_sect_size) block
  have behind : (sect+nr_sect)*dev.fat_sect_size = sect*dev.fat_sect_size+nr_sect*dev.fat_sect_size := add_mul _ _ _
  have next (first : ℕ) : (first+1)*dev.blksz = first*dev.blksz+dev.blksz := Nat.succ_mul _ _
  unfold parts
  dsimp only
  by_cases one : nr_sect*dev.fat_sect_size ≤ dev.blksz-sect*dev.fat_sect_size%dev.blksz
  · refine .inl ⟨_,rfl,by rw [behind,next]; omega,?_⟩
    rw [Nat.min_eq_left one,Nat.sub_self]
    simp [parts_from]
  · refine .inr ⟨_,nr_sect*dev.fat_sect_size-(dev.blksz-sect*dev.fat_sect_size%dev.blksz),rfl,by omega,
      by rw [behind,next]; omega,by omega,?_⟩
    rw [min_eq_right (by omega)]

theorem parts_spec (block : 0 < dev.blksz) (sect nr_sect : ℕ) :
    (Follows (dev.start*dev.blksz+sect*dev.fat_sect_size) (parts dev sect nr_sect) ↔ Numbered dev sect nr_sect) ∧
      (0 < nr_sect*dev.fat_sect_size →
        AtMost (dev.start*dev.blksz+sect*dev.fat_sect_size) (parts dev sect nr_sect)) ∧
      total (parts dev sect nr_sect) = nr_sect*dev.fat_sect_size := by
  have whole := Nat.div_add_mod' (sect*dev.fat_sect_size) dev.blksz
  have inside := Nat.mod_lt (sect*dev.fat_sect_size) block
  have placed {first : ℕ} (first_is : sect*dev.fat_sect_size/dev.blksz = first) :
      dev.place first+sect*dev.fat_sect_size%dev.blksz = dev.start*dev.blksz+sect*dev.fat_sect_size := by
    rw [place_eq,add_assoc,← first_is,whole]
  rcases parts_cases block sect nr_sect with ⟨first,first_is,ends,is⟩ | ⟨first,rem,first_is,some_rem,ends,size,is⟩
  · have place := placed first_is
    have low := @place_low dev first
    -- the range ends in its first block
    have last (cut : (sect+nr_sect)*dev.fat_sect_size%dev.blksz ≠ 0) (small : first < 2^32) :
        (sect+nr_sect)*dev.fat_sect_size/dev.blksz < 2^32 := by
      have below : (sect+nr_sect)*dev.fat_sect_size < (first+1)*dev.blksz := by
        refine lt_of_le_of_ne ends fun full => cut ?_
        rw [full,Nat.mul_mod_left]
      have := Nat.div_lt_of_lt_mul (mul_comm _ dev.blksz ▸ below)
      omega
    rw [is]
    refine ⟨?_,fun some_bytes => ⟨by omega,some_bytes,trivial⟩,by simp [total]⟩
    rw [Follows,Follows,← place,Nat.add_left_inj,place_exact block,Numbered,first_is]
    exact ⟨fun ⟨small,_⟩ => ⟨small,fun more => absurd more (by omega),fun cut => last cut small⟩,
      fun ⟨small,_⟩ => ⟨small,trivial⟩⟩
  have place := placed first_is
  have low := @place_low dev first
  have next : dev.start*dev.blksz+sect*dev.fat_sect_size+(dev.blksz-sect*dev.fat_sect_size%dev.blksz) =
      dev.place (first+1) := by
    rw [← place,place_eq,place_eq,Nat.succ_mul]
    omega
  have low_rest := parts_from_low block (first+1) rem
  have follows_rest := parts_from_follows block (first+1) rem
  rw [is]
  refine ⟨?_,fun _ => ⟨by omega,by omega,by rwa [next]⟩,?_⟩
  · rw [Follows,next,← place,Nat.add_left_inj,place_exact block,follows_rest,Numbered,first_is,ends,
      Nat.add_mul_mod_self_right,Nat.add_mul_div_right _ _ block]
    constructor
    · rintro ⟨small,reached,cut⟩
      have reached := reached some_rem
      refine ⟨small,fun _ => reached,fun left => ?_⟩
      by_cases more : dev.blksz < rem
      · have := cut more left
        omega
      · -- the rest ends inside the next block
        have below : rem < dev.blksz := by
          refine lt_of_le_of_ne (not_lt.1 more) fun full => left ?_
          rw [full,Nat.mod_self]
        rw [Nat.div_eq_of_lt below]
        omega
    · rintro ⟨small,reached,cut⟩
      refine ⟨small,fun _ => reached (by omega),fun _ left => ?_⟩
      have := cut left
      omega
  · rw [total,map_cons,sum_cons]
    have rest := @parts_from_total dev (first+1) rem
    rw [total] at rest
    rw [rest,size]

/-- Reading fills the buffer with the bytes of the range and writing changes them to those
    of the buffer; nothing else changes. -/
def Transparent (dev : Device) (sect nr_sect : ℕ) : Prop :=
  ∀ (bytes memory : ℕ → UInt8) (buf : ℕ),
    let a := dev.start*dev.blksz+sect*dev.fat_sect_size
    let size := nr_sect*dev.fat_sect_size
    let read := disk_read dev sect nr_sect bytes memory buf
    let written := disk_write dev sect nr_sect bytes memory buf
    (read.1 = nr_sect ∧ read.2.bytes = bytes ∧ read.2.memory = store memory buf (load bytes a size)) ∧
      written.1 = nr_sect ∧ written.2.bytes = store bytes a (load memory buf size) ∧ written.2.memory = memory

theorem unnumbered_misread (succeeds : Succeeds dev) (sizes : Sizes dev) {sect nr_sect : ℕ} (sect_u32 : sect < 2^32)
    (some_sectors : 0 < nr_sect) (fits : nr_sect*dev.fat_sect_size < 2^32) (unnumbered : ¬ Numbered dev sect nr_sect) :
    ¬ Transparent dev sect nr_sect := by
  intro transparent
  obtain ⟨block,sector,-⟩ := sizes.divide
  obtain ⟨follows,low,size⟩ := parts_spec block sect nr_sect
  obtain ⟨bytes,misread⟩ := run_misread (low (mul_pos some_sectors sector)) fun in_order => unnumbered (follows.1 in_order)
  obtain ⟨⟨-,-,memory_is⟩,-⟩ := transparent bytes (fun _ => 0) 0
  obtain ⟨s,s',run_is⟩ := disk_rw_spec succeeds sizes true sect_u32 fits bytes (fun _ => 0) 0
  obtain ⟨k,inside,differ⟩ := misread (fun _ => 0) 0 (nr_sect*dev.fat_sect_size) s
  rw [disk_read,run_is] at memory_is
  refine differ ((congrFun memory_is (0+k)).trans ?_)
  refine store_inside _ ?_
  rw [size] at inside
  simp [load,inside]

/-- The sectors are read and written as they are, if and only if each part begins at a block
    whose number has 32 bits. -/
theorem transparent_iff (succeeds : Succeeds dev) (sizes : Sizes dev) {sect nr_sect : ℕ} (sect_u32 : sect < 2^32)
    (some_sectors : 0 < nr_sect) (fits : nr_sect*dev.fat_sect_size < 2^32) :
    Transparent dev sect nr_sect ↔ Numbered dev sect nr_sect := by
  obtain ⟨block,-⟩ := sizes.divide
  obtain ⟨follows,-,size⟩ := parts_spec block sect nr_sect
  constructor
  · intro transparent
    by_contra unnumbered
    exact unnumbered_misread succeeds sizes sect_u32 some_sectors fits unnumbered transparent
  · intro numbered bytes memory buf
    have in_order := follows.2 numbered
    obtain ⟨s,s',read_is⟩ := disk_rw_spec succeeds sizes true sect_u32 fits bytes memory buf
    obtain ⟨r,r',written_is⟩ := disk_rw_spec succeeds sizes false sect_u32 fits bytes memory buf
    rw [run_follows true in_order,size] at read_is
    rw [run_follows false in_order,size] at written_is
    dsimp only [disk_read,disk_write]
    rw [read_is,written_is]
    exact ⟨⟨rfl,rfl,rfl⟩,rfl,rfl,rfl⟩

end

def device (blksz fat_sect_size : ℕ) : Device where
  blksz := blksz
  start := 2048
  fat_sect_size := fat_sect_size
  transfers _ _ _ := true
  allocates := true

/-- Small sectors on large blocks, from the middle of a block to the middle of another. -/
theorem small_sectors_transparent : Transparent (device 4096 512) 3 20 :=
  (transparent_iff ⟨fun _ _ _ => rfl,rfl⟩ ⟨⟨12,by decide⟩,⟨9,by decide⟩⟩ (by decide) (by decide) (by decide)).2
    ⟨by decide,by decide,by decide⟩

/-- The sector that begins 2 TiB behind the start of the partition is read at its start. -/
theorem far_sector_astray : Sizes (device 512 4096) ∧ ¬ Transparent (device 512 4096) (2^29) 1 := by
  have sizes : Sizes (device 512 4096) := ⟨⟨9,by decide⟩,⟨12,by decide⟩⟩
  refine ⟨sizes,unnumbered_misread ⟨fun _ _ _ => rfl,rfl⟩ sizes (by decide) (by decide) (by decide) ?_⟩
  rintro ⟨first,-⟩
  exact absurd first (by decide)

end UBoot.FatSectors
