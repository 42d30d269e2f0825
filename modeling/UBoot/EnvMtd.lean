import UBoot.EnvRedund
import UBoot.Words

/-!
The environment on a NAND-like MTD device (`env/mtd.c`). A save reads the rest of the sector,
erases, and writes page by page; a load reads page by page. Both loops skip bad blocks and count
down the bytes that remain until exactly none does. Accesses outside the buffers are outcomes of
their own.
-/
namespace UBoot.Env.Mtd
open UBoot.Memory UBoot.Words List

def EINVAL : Int := 22
def ENOMEM : Int := 12

def DIV_ROUND_UP (n d : Nat) : Nat := (n+d-1)/d

/-- The configuration and the geometry of the device. The sectors of the
    environment lie on the device. -/
structure Config where
  env_size : Nat
  env_offset : Nat
  size : Nat
  erasesize : Nat
  writesize : Nat
  header : 4 ≤ env_size
  page : 0 < writesize
  block : 0 < erasesize
  pages : writesize ∣ erasesize
  fits : env_offset+DIV_ROUND_UP env_size erasesize*erasesize ≤ size

structure Device where
  bad : Nat → Bool
  erase_error : Nat → Int
  write_error : Nat → Int

/-- The bytes on the device, and what was done: the numbers of the blocks that
    were erased and the offsets of the pages that were written. -/
structure Flash where
  content : Nat → UInt8
  erased : List Nat
  written : List Nat

inductive Outcome (α : Type) where
  /-- An access outside a buffer. -/
  | fault
  /-- The loop does not end on the device. -/
  | hangs
  | fails (ret : Int)
  | ok (value : α)

section
variable (c : Config) (d : Device)

def mtd_block_isbad (offset : Nat) : Bool := if offset > c.size then true else d.bad (offset/c.erasesize)

/-- The blocks in turn up to the first that cannot be erased. -/
def erase_blocks : List Nat → Flash → Int × Flash
  | [], f => (0,f)
  | b :: rest, f =>
    if d.bad b then (- EIO,f)
    else if d.erase_error b ≠ 0 then (d.erase_error b,f)
    else
      erase_blocks rest
        { f with content := fun a => if a/c.erasesize = b then 0xff else f.content a, erased := b :: f.erased }

def blocks (addr len : Nat) : List Nat :=
  List.range' (addr/c.erasesize) ((addr+len-1)/c.erasesize+1-addr/c.erasesize)

def mtd_erase (f : Flash) (addr len : Nat) : Int × Flash :=
  if addr > c.size ∨ len > c.size-addr then (-EINVAL,f)
  else if len = 0 then (0,f)
  else erase_blocks c d (blocks c addr len) f

/-- A page is read behind the part of a buffer of `cap` bytes that is filled. -/
def mtd_read (m : Nat → UInt8) (offset cap : Nat) (buf : List UInt8) : Outcome (List UInt8) :=
  if offset > c.size ∨ c.writesize > c.size-offset then .fails (-EINVAL)
  else if buf.length+c.writesize > cap then .fault
  else .ok (buf ++ load m offset c.writesize)

/-- A page is written from a buffer, `tmp` bytes of which are done. -/
def mtd_write (f : Flash) (offset : Nat) (buf : List UInt8) (tmp : Nat) : Outcome Flash :=
  if offset > c.size ∨ c.writesize > c.size-offset then .fails (-EINVAL)
  else if tmp+c.writesize > buf.length then .fault
  else if d.write_error offset ≠ 0 then .fails (d.write_error offset)
  else
    .ok { f with
      content := store f.content offset ((buf.drop tmp).take c.writesize), written := offset :: f.written }

def read_loop (m : Nat → UInt8) (cap : Nat) : Nat → Nat → Int → List UInt8 → Outcome (List UInt8)
  | 0, _, _, _ => .hangs
  | fuel+1, offset, remaining, buf =>
    if remaining = 0 then .ok buf
    else if offset%c.erasesize = 0 ∧ mtd_block_isbad c d offset then
      read_loop m cap fuel (offset+c.erasesize) remaining buf
    else
      match mtd_read c m offset cap buf with
      | .ok buf => read_loop m cap fuel (offset+c.writesize) (remaining-c.writesize) buf
      | stopped => stopped

def write_loop (buf : List UInt8) : Nat → Nat → Int → Nat → Flash → Outcome Flash
  | 0, _, _, _, _ => .hangs
  | fuel+1, offset, remaining, tmp, f =>
    if remaining = 0 then .ok f
    else if offset%c.erasesize = 0 ∧ mtd_block_isbad c d offset then
      write_loop buf fuel (offset+c.erasesize) remaining tmp f
    else
      match mtd_write c d f offset buf tmp with
      | .ok f => write_loop buf fuel (offset+c.writesize) (remaining-c.writesize) (tmp+c.writesize) f
      | stopped => stopped

def rounds : Nat := c.size+c.env_size+c.erasesize+1

def sect_num : Nat := DIV_ROUND_UP c.env_size c.erasesize

def Embedded : Prop := c.erasesize > c.env_size

instance : Decidable (Embedded c) := inferInstanceAs (Decidable (_ > _))

variable (sum : List UInt8 → UInt32)

/-- `env_new` as bytes: the checksum and the data. -/
def env_image (data : List UInt8) : List UInt8 := le32 (sum data).toNat ++ data

abbrev Data := { data : List UInt8 // data.length+4 = c.env_size }

/-- The answers that a save gets besides those of the device. -/
structure Answers where
  setup_error : Int
  malloc_fail : Bool

def env_mtd_update (f : Flash) (saved_buf data : List UInt8) : Outcome Flash :=
  match mtd_erase c d f c.env_offset (sect_num c*c.erasesize) with
  | (ret,f) =>
    if ret ≠ 0 then .fails ret
    else if Embedded c then
      write_loop c d (env_image sum data ++ saved_buf.drop c.env_size) (rounds c) c.env_offset c.erasesize 0 f
    else write_loop c d (env_image sum data) (rounds c) c.env_offset (sect_num c*c.erasesize) 0 f

def env_mtd_save (f : Flash) (exported : Option (Data c)) (answers : Answers) : Outcome Flash :=
  if answers.setup_error ≠ 0 then .fails answers.setup_error
  else if Embedded c ∧ answers.malloc_fail then .fails (-ENOMEM)
  else
    match if Embedded c then read_loop c d f.content c.erasesize (rounds c) c.env_offset c.erasesize [] else .ok [] with
    | .fault => .fault
    | .hangs => .hangs
    | .fails ret => .fails ret
    | .ok saved_buf =>
      match exported with
      | none => .fails 1
      | some data => env_mtd_update c d sum f saved_buf data.val

/-- The bytes of a copy as `env_import` reads them. -/
def env_import_checked (buf : List UInt8) : Option (List UInt8) :=
  if sum (buf.drop 4) = UInt32.ofNat (word (fun i => buf.getD i 0) 0) then some (buf.drop 4) else none

def env_mtd_load (m : Nat → UInt8) (memalign_fail : Bool) (setup_error : Int) : Outcome (Option (List UInt8)) :=
  if memalign_fail then .fails (- EIO)
  else if setup_error ≠ 0 then .fails setup_error
  else
    match read_loop c d m c.env_size (rounds c) c.env_offset c.env_size [] with
    | .fault => .fault
    | .hangs => .hangs
    | .fails ret => .fails ret
    | .ok buf => .ok (env_import_checked sum buf)

/-- For every device, whatever its bad blocks: neither function leaves its
    buffers, and after a save that returns 0 a load imports what was saved, each
    page that was written lies in blocks that were erased, and the rest of the
    sector is as before. -/
structure SavesAndLoads (c : Config) (sum : List UInt8 → UInt32) : Prop where
  save_inside : ∀ d f exported answers, env_mtd_save c d sum f exported answers ≠ .fault
  load_inside : ∀ d m memalign_fail setup_error, env_mtd_load c d sum m memalign_fail setup_error ≠ .fault
  loads : ∀ d m data answers after, env_mtd_save c d sum ⟨m,[],[]⟩ (some data) answers = .ok after →
    env_mtd_load c d sum after.content false 0 = .ok (some data.val)
  erased : ∀ d m exported answers after, env_mtd_save c d sum ⟨m,[],[]⟩ exported answers = .ok after →
    ∀ page ∈ after.written, ∀ i, i < c.writesize → (page+i)/c.erasesize ∈ after.erased
  rest : ∀ d m exported answers after, env_mtd_save c d sum ⟨m,[],[]⟩ exported answers = .ok after →
    ∀ a, c.env_offset+c.env_size ≤ a → a < c.env_offset+c.erasesize → after.content a = m a

variable {c d sum} {m : Nat → UInt8}

variable {after f : Flash} {buf : List UInt8} {fuel len offset remaining tmp : Nat} (data : Data c)

theorem round_remaining (whole : c.writesize ∣ remaining) (more : remaining ≠ 0) :
    c.writesize ≤ remaining ∧ c.writesize ∣ remaining-c.writesize ∧
      ((remaining : Int)-c.writesize) = ((remaining-c.writesize : Nat) : Int) := by
  have large : c.writesize ≤ remaining := Nat.le_of_dvd (Nat.pos_of_ne_zero more) whole
  exact ⟨large,Nat.dvd_sub whole (dvd_refl _),by omega⟩

theorem read_loop_fills {cap fuel offset remaining : Nat} (whole : c.writesize ∣ remaining)
    (room : buf.length+remaining = cap) :
    read_loop c d m cap fuel offset remaining buf ≠ .fault ∧
      ∀ filled, read_loop c d m cap fuel offset remaining buf = .ok filled → filled.length = cap := by
  induction fuel generalizing offset remaining buf with
  | zero => simp [read_loop]
  | succ fuel ih =>
    rw [read_loop]
    by_cases none_left : remaining = 0
    · subst none_left
      simpa using room
    obtain ⟨large,rest,cast⟩ := round_remaining whole none_left
    rw [if_neg (by exact_mod_cast none_left)]
    by_cases skip : offset%c.erasesize = 0 ∧ mtd_block_isbad c d offset = true
    · rw [if_pos skip]
      exact ih whole room
    · rw [if_neg skip,mtd_read]
      by_cases beyond : offset > c.size ∨ c.writesize > c.size-offset
      · simp [beyond]
      · rw [if_neg beyond,if_neg (by omega),cast]
        apply ih rest
        rw [length_append,load_length]
        omega

def Good (c : Config) (d : Device) (offset len : Nat) : Prop :=
  offset+len ≤ c.size ∧ ∀ a, offset ≤ a → a < offset+len → d.bad (a/c.erasesize) = false

theorem Good.unskipped (good : Good c d offset len) (some_left : 0 < len) :
    ¬(offset%c.erasesize = 0 ∧ mtd_block_isbad c d offset = true) := by
  rintro ⟨_,bad⟩
  have inside := good.1
  rw [mtd_block_isbad,if_neg (by omega),good.2 offset le_rfl (by omega)] at bad
  cases bad

theorem Good.next (good : Good c d offset len) {step : Nat} (within : step ≤ len) :
    Good c d (offset+step) (len-step) := by
  refine ⟨by have := good.1; omega,?_⟩
  intro a from_ upto
  exact good.2 a (by omega) (by omega)

theorem read_loop_good {cap fuel offset remaining : Nat} (whole : c.writesize ∣ remaining)
    (room : buf.length+remaining = cap) (good : Good c d offset remaining) (enough : remaining < fuel) :
    read_loop c d m cap fuel offset remaining buf = .ok (buf ++ load m offset remaining) := by
  induction fuel generalizing offset remaining buf with
  | zero => omega
  | succ fuel ih =>
    have page := c.page
    rw [read_loop]
    by_cases none_left : remaining = 0
    · subst none_left
      simp [load]
    obtain ⟨large,rest,cast⟩ := round_remaining whole none_left
    have inside := good.1
    rw [if_neg (by exact_mod_cast none_left),if_neg (good.unskipped (by omega)),mtd_read,if_neg (by omega),
      if_neg (by omega),cast]
    have pages : load m offset remaining =
        load m offset c.writesize ++ load m (offset+c.writesize) (remaining-c.writesize) := by
      rw [← load_append]
      congr 1
      omega
    rw [pages,← append_assoc]
    apply ih rest _ (good.next large) (by omega)
    rw [length_append,load_length]
    omega

theorem read_loop_overruns {cap fuel base : Nat} (partial_page : ¬c.writesize ∣ cap)
    (pages : c.writesize ∣ buf.length) (filled : buf.length ≤ cap) (inside : cap ≤ c.erasesize)
    (good : Good c d base c.erasesize) (enough : cap-buf.length < fuel) :
    read_loop c d m cap fuel (base+buf.length) ((cap : Int)-buf.length) buf = .fault := by
  induction fuel generalizing buf with
  | zero => omega
  | succ fuel ih =>
    have page := c.page
    have unfilled : buf.length ≠ cap := by
      intro full
      rw [full] at pages
      exact partial_page pages
    have below : buf.length+c.writesize ≤ c.erasesize := by
      have apart : c.writesize ≤ c.erasesize-buf.length :=
        Nat.le_of_dvd (by omega) (Nat.dvd_sub c.pages pages)
      omega
    have on_device := good.1
    rw [read_loop,if_neg (by omega),if_neg ((good.next (by omega)).unskipped (by omega)),mtd_read,if_neg (by omega)]
    by_cases over_ : buf.length+c.writesize > cap
    · rw [if_pos over_]
    rw [if_neg over_]
    have grown : (buf ++ load m (base+buf.length) c.writesize).length = buf.length+c.writesize := by
      rw [length_append,load_length]
    have next := @ih (buf ++ load m (base+buf.length) c.writesize)
      (by rw [grown]; exact dvd_add pages (dvd_refl _)) (by rw [grown]; omega) (by rw [grown]; omega)
    have count : (cap : Int)-buf.length-c.writesize = cap-(buf.length+c.writesize : Nat) := by
      push_cast
      omega
    rw [grown,← add_assoc] at next
    show read_loop c d m cap fuel _ _ _ = _
    rw [count,next]

theorem write_loop_inside
    (whole : c.writesize ∣ remaining) (room : tmp+remaining ≤ buf.length) :
    write_loop c d buf fuel offset remaining tmp f ≠ .fault := by
  induction fuel generalizing offset remaining tmp f with
  | zero => simp [write_loop]
  | succ fuel ih =>
    rw [write_loop]
    by_cases none_left : remaining = 0
    · simp [none_left]
    obtain ⟨large,rest,cast⟩ := round_remaining whole none_left
    rw [if_neg (by exact_mod_cast none_left)]
    by_cases skip : offset%c.erasesize = 0 ∧ mtd_block_isbad c d offset = true
    · rw [if_pos skip]
      exact ih whole room
    rw [if_neg skip,mtd_write]
    by_cases beyond : offset > c.size ∨ c.writesize > c.size-offset
    · simp [beyond]
    · rw [if_neg beyond,if_neg (by omega)]
      by_cases error : d.write_error offset ≠ 0
      · simp [error]
      · rw [if_neg error,cast]
        exact ih rest (by omega)

theorem write_loop_good
    (whole : c.writesize ∣ remaining) (room : tmp+remaining = buf.length) (good : Good c d offset remaining)
    (done : write_loop c d buf fuel offset remaining tmp f = .ok after) :
    after.content = store f.content offset (buf.drop tmp) ∧ after.erased = f.erased ∧
      ∀ page ∈ after.written, page ∈ f.written ∨ (offset ≤ page ∧ page+c.writesize ≤ offset+remaining) := by
  induction fuel generalizing offset remaining tmp f with
  | zero => simp [write_loop] at done
  | succ fuel ih =>
    rw [write_loop] at done
    by_cases none_left : remaining = 0
    · rw [if_pos (by exact_mod_cast none_left)] at done
      cases done
      refine ⟨?_,rfl,fun page member => .inl member⟩
      rw [drop_eq_nil_of_le (by omega),store_nil]
    obtain ⟨large,rest,cast⟩ := round_remaining whole none_left
    have page := c.page
    have inside := good.1
    rw [if_neg (by exact_mod_cast none_left),if_neg (good.unskipped (by omega)),mtd_write,if_neg (by omega),
      if_neg (by omega)] at done
    by_cases error : d.write_error offset ≠ 0
    · rw [if_pos error] at done
      cases done
    rw [if_neg error,cast] at done
    obtain ⟨content,erased,written⟩ := ih rest (by omega) (good.next large) done
    have taken : ((buf.drop tmp).take c.writesize).length = c.writesize := by
      rw [length_take,length_drop]
      omega
    refine ⟨?_,erased,?_⟩
    · have parts : buf.drop tmp = (buf.drop tmp).take c.writesize ++ buf.drop (tmp+c.writesize) := by
        rw [← drop_drop,take_append_drop]
      rw [content,parts,store_append,taken,← parts]
    · intro page member
      rcases written page member with old | new
      · rcases mem_cons.mp old with rfl | before
        · exact .inr ⟨le_rfl,by omega⟩
        · exact .inl before
      · exact .inr ⟨by omega,by omega⟩

theorem write_loop_overruns
    (whole : c.writesize ∣ remaining) (short : buf.length < tmp+remaining) (started : tmp ≤ buf.length)
    (good : Good c d offset remaining) (writes : ∀ a, d.write_error a = 0) (enough : remaining < fuel) :
    write_loop c d buf fuel offset remaining tmp f = .fault := by
  induction fuel generalizing offset remaining tmp f with
  | zero => omega
  | succ fuel ih =>
    have page := c.page
    have none_left : remaining ≠ 0 := by omega
    obtain ⟨large,rest,cast⟩ := round_remaining whole none_left
    have inside := good.1
    rw [write_loop,if_neg (by exact_mod_cast none_left),if_neg (good.unskipped (by omega)),mtd_write,if_neg (by omega)]
    by_cases over_ : tmp+c.writesize > buf.length
    · rw [if_pos over_]
    · rw [if_neg over_,if_neg (by simp [writes]),cast]
      exact ih rest (by omega) (by omega) (good.next large) (by omega)

theorem mem_blocks {addr len a : Nat} (from_ : addr ≤ a) (upto : a < addr+len) :
    a/c.erasesize ∈ blocks c addr len := by
  have low : addr/c.erasesize ≤ a/c.erasesize := Nat.div_le_div_right from_
  have high : a/c.erasesize ≤ (addr+len-1)/c.erasesize := Nat.div_le_div_right (by omega)
  rw [blocks,mem_range'_1]
  omega

theorem erase_blocks_done {bs : List Nat} (done : erase_blocks c d bs f = (0,after)) :
    (∀ b ∈ bs, d.bad b = false) ∧ (∀ b, b ∈ f.erased ∨ b ∈ bs → b ∈ after.erased) ∧ after.written = f.written := by
  induction bs generalizing f with
  | nil =>
    rw [erase_blocks] at done
    cases done
    simp
  | cons b rest ih =>
    rw [erase_blocks] at done
    by_cases bad : d.bad b = true
    · rw [if_pos bad] at done
      exact absurd (congrArg Prod.fst done) (show ¬(- EIO : Int) = 0 by decide)
    rw [if_neg bad] at done
    by_cases error : d.erase_error b ≠ 0
    · rw [if_pos error] at done
      exact absurd (congrArg Prod.fst done) error
    rw [if_neg error] at done
    obtain ⟨good,erased,written⟩ := ih done
    refine ⟨?_,?_,written⟩
    · intro b' member
      rcases mem_cons.mp member with rfl | later
      · exact Bool.eq_false_iff.mpr bad
      · exact good b' later
    · intro b' member
      apply erased
      rcases member with before | now
      · exact .inl (mem_cons_of_mem _ before)
      · rcases mem_cons.mp now with rfl | later
        · exact .inl mem_cons_self
        · exact .inr later

theorem mtd_erase_done {addr len : Nat} (done : mtd_erase c d f addr len = (0,after)) :
    Good c d addr len ∧ (∀ a, addr ≤ a → a < addr+len → a/c.erasesize ∈ after.erased) ∧ after.written = f.written := by
  rw [mtd_erase] at done
  by_cases beyond : addr > c.size ∨ len > c.size-addr
  · rw [if_pos beyond] at done
    exact absurd (congrArg Prod.fst done) (show ¬(-EINVAL : Int) = 0 by decide)
  rw [if_neg beyond] at done
  by_cases empty : len = 0
  · rw [if_pos empty] at done
    cases done
    exact ⟨⟨by omega,by omega⟩,by omega,rfl⟩
  · rw [if_neg empty] at done
    obtain ⟨good,erased,written⟩ := erase_blocks_done done
    refine ⟨⟨by omega,?_⟩,?_,written⟩
    · intro a from_ upto
      exact good _ (mem_blocks from_ upto)
    · intro a from_ upto
      exact erased _ (.inr (mem_blocks from_ upto))

/-- The sizes divide: a copy in one sector consists of whole pages, one in
    several sectors of whole sectors. -/
def Divides (c : Config) : Prop := c.env_size < c.erasesize ∧ c.writesize ∣ c.env_size ∨ c.erasesize ∣ c.env_size

theorem env_image_length : (env_image sum data.val).length = c.env_size := by
  rw [env_image,length_append,show (le32 (sum data.val).toNat).length = 4 from rfl]
  omega

theorem sectors_embedded (embedded : Embedded c) : sect_num c*c.erasesize = c.erasesize := by
  rw [Embedded] at embedded
  have header := c.header
  have one : sect_num c = 1 := by
    rw [sect_num,DIV_ROUND_UP,Nat.div_eq_iff c.block]
    omega
  rw [one,one_mul]

theorem sectors_whole : sect_num c*c.erasesize = c.env_size ↔ c.erasesize ∣ c.env_size := roundUp_eq_self c.block

theorem env_size_le : c.env_size ≤ sect_num c*c.erasesize := le_roundUp c.env_size c.block

def write_buf (c : Config) (sum : List UInt8 → UInt32) (data saved_buf : List UInt8) : List UInt8 :=
  if Embedded c then env_image sum data ++ saved_buf.drop c.env_size else env_image sum data

theorem env_mtd_update_eq (f : Flash) (saved_buf data : List UInt8) :
    env_mtd_update c d sum f saved_buf data =
      match mtd_erase c d f c.env_offset (sect_num c*c.erasesize) with
      | (ret,f) =>
        if ret ≠ 0 then .fails ret
        else
          write_loop c d (write_buf c sum data saved_buf) (rounds c) c.env_offset ((sect_num c*c.erasesize : Nat) : Int)
            0 f := by
  rw [env_mtd_update,write_buf]
  by_cases embedded : Embedded c
  · simp only [if_pos embedded,sectors_embedded embedded]
  · simp only [if_neg embedded,Nat.cast_mul]

theorem sectors_pages : c.writesize ∣ sect_num c*c.erasesize := Dvd.dvd.mul_left c.pages _

theorem write_buf_length (divides : Divides c) (data : Data c) {saved_buf : List UInt8}
    (saved : Embedded c → saved_buf.length = c.erasesize) :
    (write_buf c sum data.val saved_buf).length = sect_num c*c.erasesize := by
  rw [write_buf]
  by_cases embedded : Embedded c
  · have larger : c.env_size < c.erasesize := embedded
    rw [if_pos embedded,length_append,length_drop,env_image_length,saved embedded,sectors_embedded embedded]
    omega
  · rw [if_neg embedded,env_image_length]
    rcases divides with ⟨larger,_⟩ | whole
    · exact absurd larger embedded
    · exact (sectors_whole.mpr whole).symm

theorem env_mtd_update_inside (divides : Divides c) (data : Data c) {f : Flash} {saved_buf : List UInt8}
    (saved : Embedded c → saved_buf.length = c.erasesize) : env_mtd_update c d sum f saved_buf data.val ≠ .fault := by
  rw [env_mtd_update_eq]
  cases erase : mtd_erase c d f c.env_offset (sect_num c*c.erasesize) with
  | mk ret after =>
    by_cases error : ret ≠ 0
    · simp [error]
    · simp only [if_neg error]
      apply write_loop_inside sectors_pages
      rw [write_buf_length divides data saved,zero_add]

structure Updated (c : Config) (d : Device) (image : List UInt8) (f after : Flash) : Prop where
  good : Good c d c.env_offset (sect_num c*c.erasesize)
  content : ∃ m, after.content = store m c.env_offset image
  erased : ∀ a, c.env_offset ≤ a → a < c.env_offset+sect_num c*c.erasesize → a/c.erasesize ∈ after.erased
  written : ∀ page ∈ after.written, page ∈ f.written ∨
    (c.env_offset ≤ page ∧ page+c.writesize ≤ c.env_offset+sect_num c*c.erasesize)

theorem env_mtd_update_done (divides : Divides c) (data : Data c) {f after : Flash} {saved_buf : List UInt8}
    (saved : Embedded c → saved_buf.length = c.erasesize)
    (done : env_mtd_update c d sum f saved_buf data.val = .ok after) :
    Updated c d (write_buf c sum data.val saved_buf) f after := by
  rw [env_mtd_update_eq] at done
  cases erase : mtd_erase c d f c.env_offset (sect_num c*c.erasesize) with
  | mk ret wiped =>
    rw [erase] at done
    by_cases error : ret ≠ 0
    · simp [error] at done
    simp only [if_neg error] at done
    rw [not_not] at error
    obtain ⟨good,erased,unwritten⟩ := mtd_erase_done (error ▸ erase)
    obtain ⟨content,same,written⟩ := write_loop_good sectors_pages
      (by rw [write_buf_length divides data saved,zero_add]) good done
    refine ⟨good,⟨wiped.content,by rw [content,drop_zero]⟩,by rw [same]; exact erased,?_⟩
    rw [← unwritten]
    exact written

theorem env_mtd_save_done {exported : Option (Data c)} {answers : Answers}
    (done : env_mtd_save c d sum f exported answers = .ok after) :
    ∃ data saved_buf, exported = some data ∧
      (Embedded c → read_loop c d f.content c.erasesize (rounds c) c.env_offset c.erasesize [] = .ok saved_buf) ∧
      env_mtd_update c d sum f saved_buf data.val = .ok after := by
  rw [env_mtd_save] at done
  by_cases setup : answers.setup_error ≠ 0
  · simp [setup] at done
  rw [if_neg setup] at done
  by_cases memory : Embedded c ∧ answers.malloc_fail = true
  · simp [memory] at done
  rw [if_neg memory] at done
  split at done
  · cases done
  · cases done
  · cases done
  next saved_buf read =>
    cases exported with
    | none => cases done
    | some data =>
      refine ⟨data,saved_buf,rfl,?_,done⟩
      intro embedded
      rwa [if_pos embedded] at read

theorem read_saved_length {saved_buf : List UInt8}
    (read : read_loop c d m c.erasesize fuel c.env_offset c.erasesize [] = .ok saved_buf) :
    saved_buf.length = c.erasesize :=
  (read_loop_fills c.pages (by simp)).2 saved_buf read

theorem env_mtd_save_updated (divides : Divides c) {f after : Flash} {exported : Option (Data c)} {answers : Answers}
    (done : env_mtd_save c d sum f exported answers = .ok after) :
    ∃ data saved_buf, exported = some data ∧
      (Embedded c → saved_buf = load f.content c.env_offset c.erasesize) ∧
      Updated c d (write_buf c sum data.val saved_buf) f after := by
  obtain ⟨data,saved_buf,some_data,read,update⟩ := env_mtd_save_done done
  have updated := env_mtd_update_done divides data (fun embedded => read_saved_length (read embedded)) update
  refine ⟨data,saved_buf,some_data,?_,updated⟩
  intro embedded
  have good := updated.good
  rw [sectors_embedded embedded] at good
  have whole : read_loop c d f.content c.erasesize (rounds c) c.env_offset c.erasesize [] =
      .ok ([] ++ load f.content c.env_offset c.erasesize) :=
    read_loop_good c.pages (by simp) good (by rw [rounds]; omega)
  rw [read embedded,nil_append] at whole
  cases whole
  rfl

theorem env_mtd_save_inside (divides : Divides c) (f : Flash) (exported : Option (Data c)) (answers : Answers) :
    env_mtd_save c d sum f exported answers ≠ .fault := by
  rw [env_mtd_save]
  by_cases setup : answers.setup_error ≠ 0
  · simp [setup]
  rw [if_neg setup]
  by_cases memory : Embedded c ∧ answers.malloc_fail = true
  · simp [memory]
  rw [if_neg memory]
  split
  next read =>
    -- The pages of a sector fill the buffer.
    split at read
    · exact absurd read (read_loop_fills c.pages (by simp)).1
    · cases read
  · simp
  · simp
  next saved_buf read =>
    cases exported with
    | none => simp
    | some data =>
      apply env_mtd_update_inside divides data
      intro embedded
      rw [if_pos embedded] at read
      exact read_saved_length read

theorem env_size_pages (divides : Divides c) : c.writesize ∣ c.env_size := by
  rcases divides with ⟨_,pages⟩ | whole
  · exact pages
  · exact dvd_trans c.pages whole

theorem env_mtd_load_inside (divides : Divides c) (m : Nat → UInt8) (memalign_fail : Bool) (setup_error : Int) :
    env_mtd_load c d sum m memalign_fail setup_error ≠ .fault := by
  rw [env_mtd_load]
  split
  · simp
  · split
    · simp
    · split
      next read => exact absurd read (read_loop_fills (env_size_pages divides) (by simp)).1
      · simp
      · simp
      · simp

theorem env_import_image (data : List UInt8) : env_import_checked sum (env_image sum data) = some data := by
  have bytes : (env_image sum data).drop 4 = data := rfl
  have crc : word (fun i => (env_image sum data).getD i 0) 0 = (sum data).toNat := by
    have small := (sum data).toNat_lt
    simp [word,env_image,le32]
    omega
  rw [env_import_checked,bytes,crc,UInt32.ofNat_toNat,if_pos rfl]

theorem load_image (saved_buf : List UInt8) (m : Nat → UInt8) :
    load (store m c.env_offset (write_buf c sum data.val saved_buf)) c.env_offset c.env_size =
      env_image sum data.val := by
  have size : (env_image sum data.val).length = c.env_size := env_image_length data
  have whole := load_store m c.env_offset (env_image sum data.val)
  rw [size] at whole
  rw [write_buf]
  split
  · rw [store_append,load_store_apart _ (.inl (by omega)),whole]
  · exact whole

theorem env_mtd_load_done (divides : Divides c) (data : Data c) {saved_buf : List UInt8} {f after : Flash}
    (updated : Updated c d (write_buf c sum data.val saved_buf) f after) :
    env_mtd_load c d sum after.content false 0 = .ok (some data.val) := by
  obtain ⟨m,content⟩ := updated.content
  have good : Good c d c.env_offset c.env_size := by
    refine ⟨?_,?_⟩
    · have fits := updated.good.1
      have small := env_size_le (c := c)
      omega
    · intro a from_ upto
      have small := env_size_le (c := c)
      exact updated.good.2 a from_ (by omega)
  have read : read_loop c d after.content c.env_size (rounds c) c.env_offset c.env_size [] =
      .ok ([] ++ load after.content c.env_offset c.env_size) :=
    read_loop_good (env_size_pages divides) (by simp) good (by rw [rounds]; omega)
  rw [nil_append,content,load_image] at read
  rw [env_mtd_load,if_neg (by simp),if_neg (by simp),content,read]
  exact congrArg Outcome.ok (env_import_image data.val)

theorem updated_rest (embedded : Embedded c)
    (updated : Updated c d (write_buf c sum data.val (load f.content c.env_offset c.erasesize)) f after) {a : Nat}
    (behind : c.env_offset+c.env_size ≤ a) (inside : a < c.env_offset+c.erasesize) :
    after.content a = f.content a := by
  obtain ⟨m,content⟩ := updated.content
  obtain ⟨i,rfl⟩ : ∃ i, a = c.env_offset+i := ⟨a-c.env_offset,by omega⟩
  rw [content]
  apply store_inside
  have size : (env_image sum data.val).length = c.env_size := env_image_length data
  rw [write_buf,if_pos embedded,getElem?_append_right (by omega),size,getElem?_drop]
  have place : c.env_size+(i-c.env_size) = i := by omega
  rw [place,load,getElem?_map,getElem?_range (by omega),Option.map_some]

def perfect : Device := ⟨fun _ => false,fun _ => 0,fun _ => 0⟩

theorem perfect_good (inside : offset+len ≤ c.size) : Good c perfect offset len :=
  ⟨inside,fun _ _ _ => rfl⟩

theorem perfect_erases (f : Flash) (bs : List Nat) : (erase_blocks c perfect bs f).1 = 0 := by
  induction bs generalizing f with
  | nil => rfl
  | cons b rest ih =>
    rw [erase_blocks,if_neg (by simp [perfect]),if_neg (by simp [perfect])]
    exact ih _

theorem save_overruns (larger : ¬c.env_size < c.erasesize) (unfilled : ¬c.erasesize ∣ c.env_size) (f : Flash)
    (data : Data c) : env_mtd_save c perfect sum f (some data) ⟨0,false⟩ = .fault := by
  have embedded : ¬Embedded c := larger
  have more : c.env_size < sect_num c*c.erasesize :=
    lt_of_le_of_ne env_size_le (fun same => unfilled (sectors_whole.mp same.symm))
  have fits : c.env_offset+sect_num c*c.erasesize ≤ c.size := c.fits
  have update : env_mtd_update c perfect sum f [] data.val = .fault := by
    rw [env_mtd_update_eq]
    cases erase : mtd_erase c perfect f c.env_offset (sect_num c*c.erasesize) with
    | mk ret wiped =>
      have zero : ret = 0 := by
        rw [mtd_erase,if_neg (by omega),if_neg (by omega)] at erase
        rw [← perfect_erases f (blocks c c.env_offset (sect_num c*c.erasesize)),erase]
      simp only [zero,ne_eq,not_true_eq_false,if_false]
      apply write_loop_overruns sectors_pages _ (Nat.zero_le _) (perfect_good fits) (fun _ => rfl)
        (by rw [rounds]; omega)
      rw [write_buf,if_neg embedded,env_image_length]
      omega
  simpa [env_mtd_save,embedded] using update

theorem load_overruns (smaller : c.env_size < c.erasesize) (partial_page : ¬c.writesize ∣ c.env_size)
    (m : Nat → UInt8) : env_mtd_load c perfect sum m false 0 = .fault := by
  have fits := c.fits
  have one : DIV_ROUND_UP c.env_size c.erasesize*c.erasesize = c.erasesize := sectors_embedded smaller
  rw [one] at fits
  have read : read_loop c perfect m c.env_size (rounds c) (c.env_offset+[].length) ((c.env_size : Int)-[].length) [] =
      .fault :=
    read_loop_overruns partial_page (Nat.dvd_zero _) (Nat.zero_le _) (le_of_lt smaller) (perfect_good fits)
      (by rw [rounds]; omega)
  rw [length_nil,add_zero,Nat.cast_zero,Int.sub_zero] at read
  rw [env_mtd_load,if_neg (by simp),if_neg (by simp),read]

end

def half_filled : Config where
  env_size := 0x30000
  env_offset := 0x80000
  size := 0x8000000
  erasesize := 0x20000
  writesize := 0x800
  header := by decide
  page := by decide
  block := by decide
  pages := by decide
  fits := by decide +kernel

end UBoot.Env.Mtd
