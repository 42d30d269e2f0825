import UBoot.Fat

/-!
The contents of files on a FAT volume: `get_contents` of `fs/fat/fat.c` reads and `set_contents`
of `fs/fat/fat_write.c` overwrites, extends and cuts. Both go through a chain in runs of
consecutive clusters, and their nested loops are modelled as one loop whose rounds extend the run
or end it.

The bytes of a chain are the bytes of its clusters in order (`contents`), and what is read of a
file is a part of them (`get_contents_chain`).
-/
namespace UBoot.FatFile
open UBoot.Memory UBoot.Fat List

/-- What `fsdata` says about the volume. The clusters are those from 2 to `max_clust`, all of them
    on the device. -/
structure Fsdata where
  fatsize : FatSize
  sect_size : ℕ
  clust_size : ℕ
  rootdir_sect : ℕ
  /-- The first sector of cluster 2. -/
  data_sect : ℕ
  total_sector : ℕ
  max_clust : ℕ
  sector : 0 < sect_size
  cluster : 0 < clust_size
  numbers : max_clust ≤ fatsize.bad
  device : data_sect+(max_clust-2)*clust_size ≤ total_sector

structure Disk where
  fat : Table
  bytes : ℕ → UInt8

section
variable (g : Fsdata)

def bytesperclust : ℕ := g.clust_size*g.sect_size

def clust_to_sect (clust : ℕ) : ℕ := g.data_sect+(clust-2)*g.clust_size

def disk_read (d : Disk) (sect nr_blocks : ℕ) : Option (List UInt8) :=
  if sect+nr_blocks > g.total_sector then none else some (load d.bytes (sect*g.sect_size) (nr_blocks*g.sect_size))

def disk_write (d : Disk) (sect nr_blocks : ℕ) (bytes : List UInt8) : Option Disk :=
  if sect+nr_blocks > g.total_sector then none else some { d with bytes := store d.bytes (sect*g.sect_size) bytes }

def write_blocks (d : Disk) (sect nr_blocks : ℕ) (bytes : List UInt8) : Option Disk :=
  if nr_blocks = 0 then some d else disk_write g d sect nr_blocks bytes

/-! ## Reading -/

/-- The value of `(int)n` as an `unsigned long`. -/
def int_arg (n : ℕ) : ℕ := if n%2^32 < 2^31 then n%2^32 else 2^64-2^32+n%2^32

/-- The sectors are read in one transfer or one by one, as the buffer is aligned or not. -/
def get_cluster (d : Disk) (clustnum size : ℕ) : Option (List UInt8) :=
  let startsect := if clustnum > 0 then clust_to_sect g clustnum else g.rootdir_sect
  (disk_read g d startsect ((size+g.sect_size-1)/g.sect_size)).map (·.take size)

/-- The walk to the cluster of a position: `actsize` is the end of `curclust`. -/
def get_position (d : Disk) (pos : ℕ) : ℕ → ℕ → ℕ → Option (Option (ℕ × ℕ))
  | 0, _, _ => none
  | rounds+1, curclust, actsize =>
    if actsize ≤ pos then
      let curclust := get_fatent g.fatsize d.fat curclust
      if CHECK_CLUST curclust g.fatsize then some none
      else get_position d pos rounds curclust (actsize+bytesperclust g)
    else some (some (curclust,actsize))

/-- The loops of `get_contents` over the runs of consecutive clusters, for so many rounds. The run
    goes from `curclust` to `endclust` and has `actsize` bytes. -/
def get_runs (d : Disk) : ℕ → ℕ → ℕ → ℕ → ℕ → List UInt8 → Option (Option (List UInt8))
  | 0, _, _, _, _, _ => none
  | rounds+1, curclust, endclust, actsize, filesize, got =>
    if actsize < filesize then
      let newclust := get_fatent g.fatsize d.fat endclust
      if newclust ≠ endclust+1 then
        match get_cluster g d curclust (int_arg actsize) with
        | none => some none
        | some bytes =>
          if CHECK_CLUST newclust g.fatsize then some none
          else get_runs d rounds newclust newclust (bytesperclust g) (filesize-actsize) (got ++ bytes)
      else if CHECK_CLUST newclust g.fatsize then some none
      else get_runs d rounds curclust newclust (actsize+bytesperclust g) filesize got
    else
      match get_cluster g d curclust (int_arg filesize) with
      | none => some none
      | some bytes => some (some (got ++ bytes))

/-- What is read from `pos` in the cluster `curclust` on; the file ends `filesize` bytes behind the
    start of the cluster. -/
def get_from (d : Disk) (curclust pos filesize : ℕ) : Option (Option (List UInt8)) :=
  if pos ≠ 0 then
    -- up to the beginning of the next cluster
    let actsize := min filesize (bytesperclust g)
    match get_cluster g d curclust actsize with
    | none => some none
    | some bytes =>
      let got := bytes.drop pos
      if filesize-actsize = 0 then some (some got)
      else
        let curclust := get_fatent g.fatsize d.fat curclust
        if CHECK_CLUST curclust g.fatsize then some none
        else get_runs g d (filesize+1) curclust curclust (bytesperclust g) (filesize-actsize) got
  else get_runs g d (filesize+1) curclust curclust (bytesperclust g) filesize []

/-- The bytes that are read, or an error; `none` is a loop that does not end. A length of zero
    stands for the rest of the file. -/
def get_contents (d : Disk) (start size pos maxsize : ℕ) : Option (Option (List UInt8)) :=
  if pos ≥ size then some (some [])
  else
    let filesize := if maxsize > 0 ∧ size > pos+maxsize then pos+maxsize else size
    match get_position g d pos (pos+1) start (bytesperclust g) with
    | none => none
    | some none => some none
    | some (some (curclust,actsize)) =>
      let actsize := actsize-bytesperclust g
      get_from g d curclust (pos-actsize) (filesize-actsize)

/-! ## Writing -/

/-- Whether all was written, and the disk. The last sector is filled up with zeros. -/
def set_sectors (d : Disk) (startsect : ℕ) (buffer : List UInt8) : Bool × Disk :=
  let nsects := buffer.length/g.sect_size
  match write_blocks g d startsect nsects (buffer.take (nsects*g.sect_size)) with
  | none => (false,d)
  | some d =>
    let rest := buffer.drop (nsects*g.sect_size)
    if rest = [] then (true,d)
    else
      match disk_write g d (startsect+nsects) 1 (rest ++ List.replicate (g.sect_size-rest.length) 0) with
      | none => (false,d)
      | some d => (true,d)

/-- The size is passed as a `u32`. -/
def set_cluster (d : Disk) (clustnum : ℕ) (buffer : List UInt8) (size : ℕ) : Bool × Disk :=
  set_sectors g d (clust_to_sect g clustnum) (buffer.take (size%2^32))

def overlay (bytes : List UInt8) (off : ℕ) (new : List UInt8) : List UInt8 :=
  bytes.take off ++ new ++ bytes.drop (off+new.length)

def change_cluster (d : Disk) (startsect pos : ℕ) (bytes : List UInt8) : Option Disk :=
  match disk_read g d startsect g.clust_size with
  | none => none
  | some tmpbuf => disk_write g d startsect g.clust_size (overlay tmpbuf pos bytes)

/-- The end of `get_set_cluster`: full clusters, and a part of one. -/
def set_full_clusters (d : Disk) (startsect : ℕ) (buffer : List UInt8) : Bool × Disk :=
  let clustcount := buffer.length/bytesperclust g
  match write_blocks g d startsect (clustcount*g.clust_size) (buffer.take (clustcount*bytesperclust g)) with
  | none => (false,d)
  | some d =>
    let rest := buffer.drop (clustcount*bytesperclust g)
    if rest = [] then (true,d)
    else
      match change_cluster g d (startsect+clustcount*g.clust_size) 0 rest with
      | none => (false,d)
      | some d => (true,d)

/-- Consecutive clusters take the buffer from `pos` on. -/
def get_set_cluster (d : Disk) (clustnum pos : ℕ) (buffer : List UInt8) : Bool × Disk :=
  if buffer = [] then (true,d)
  else
    let startsect := clust_to_sect g clustnum
    if pos ≠ 0 then
      let wsize := min (bytesperclust g-pos) buffer.length
      match change_cluster g d startsect pos (buffer.take wsize) with
      | none => (false,d)
      | some d =>
        if buffer.drop wsize = [] then (true,d)
        else set_full_clusters g d (startsect+g.clust_size) (buffer.drop wsize)
    else set_full_clusters g d startsect buffer

def check_overflow (clustnum size : ℕ) : Bool :=
  let startsect := if clustnum > 0 then clust_to_sect g clustnum else g.rootdir_sect
  startsect+(size+g.sect_size-1)/g.sect_size > g.total_sector

/-- What `set_contents` returns and changes: the disk, the start cluster in the directory entry
    and `*gotsize`. -/
structure Written where
  ret : ℤ
  disk : Disk
  start : ℕ
  gotsize : ℕ

/-- The walk to the cluster at `pos`: `cur_pos` is the end of `curclust`. -/
def set_position (d : Disk) (pos : ℕ) : ℕ → ℕ → ℕ → Option (Option (ℕ × ℕ))
  | 0, _, _ => none
  | rounds+1, curclust, cur_pos =>
    if pos ≤ cur_pos then some (some (curclust,cur_pos))
    else if IS_LAST_CLUST curclust g.fatsize then some (some (curclust,cur_pos))
    else
      let newclust := get_fatent g.fatsize d.fat curclust
      if ¬IS_LAST_CLUST newclust g.fatsize ∧ CHECK_CLUST newclust g.fatsize then some none
      else set_position d pos rounds newclust (cur_pos+bytesperclust g)

inductive Overwritten where
  | failed (d : Disk) (gotsize : ℕ)
  /-- Everything is written. -/
  | done (d : Disk) (endclust gotsize : ℕ)
  /-- There are no more clusters. -/
  | full (d : Disk) (endclust cur_pos gotsize : ℕ) (buffer : List UInt8)

/-- The loops that overwrite the runs of consecutive clusters, for so many rounds. `newclust` is
    read only where it was set. -/
def overwrite (pos filesize : ℕ) : ℕ → Disk → ℕ → ℕ → ℕ → ℕ → ℕ → ℕ → List UInt8 → Option Overwritten
  | 0, _, _, _, _, _, _, _, _ => none
  | rounds+1, d, curclust, endclust, newclust, actsize, cur_pos, gotsize, buffer =>
    let next := get_fatent g.fatsize d.fat endclust
    if filesize > cur_pos+actsize ∧ next = endclust+1 ∧ ¬IS_LAST_CLUST next g.fatsize then
      if CHECK_CLUST next g.fatsize then some (.failed d gotsize)
      else overwrite pos filesize rounds d curclust next next (actsize+bytesperclust g) cur_pos gotsize buffer
    else
      let newclust := if filesize > cur_pos+actsize then next else newclust
      let offset := if pos < cur_pos then 0 else pos-cur_pos
      let wsize := min actsize (filesize-cur_pos)-offset
      match get_set_cluster g d curclust offset (buffer.take wsize) with
      | (false,d) => some (.failed d gotsize)
      | (true,d) =>
        let cur_pos := cur_pos+(offset+wsize)
        if filesize ≤ cur_pos then some (.done d endclust (gotsize+wsize))
        else if IS_LAST_CLUST newclust g.fatsize then some (.full d endclust cur_pos (gotsize+wsize) (buffer.drop wsize))
        else
          overwrite pos filesize rounds d newclust newclust newclust (bytesperclust g) cur_pos (gotsize+wsize) (buffer.drop wsize)

/-- The loops that allocate and write runs of consecutive clusters, for so many rounds. -/
def allocate (start : ℕ) : ℕ → Disk → ℕ → ℕ → ℕ → ℕ → ℕ → List UInt8 → Option Written
  | 0, _, _, _, _, _, _, _ => none
  | rounds+1, d, curclust, endclust, actsize, filesize, gotsize, buffer =>
    if actsize < filesize then
      let (newclust,fat) := determine_fatent g.fatsize d.fat endclust
      let d := { d with fat := fat }
      if newclust ≠ endclust+1 then
        match set_cluster g d curclust buffer actsize with
        | (false,d) => some ⟨-1,d,start,gotsize⟩
        | (true,d) =>
          if CHECK_CLUST newclust g.fatsize then some ⟨0,d,start,gotsize+actsize⟩
          else
            allocate start rounds d newclust newclust (bytesperclust g) (filesize-actsize) (gotsize+actsize) (buffer.drop actsize)
      else if CHECK_CLUST newclust g.fatsize then some ⟨0,d,start,gotsize⟩
      else allocate start rounds d curclust newclust (actsize+bytesperclust g) filesize gotsize buffer
    else
      match set_cluster g d curclust buffer filesize with
      | (false,d) => some ⟨-1,d,start,gotsize⟩
      | (true,d) =>
        some ⟨0,{ d with fat := set_fatent_value g.fatsize d.fat endclust g.fatsize.mark },start,gotsize+filesize⟩

/-- The first cluster is found and the allocation may begin. -/
def set_new_clusters (d : Disk) (start curclust filesize gotsize : ℕ) (buffer : List UInt8) : Option Written :=
  if check_overflow g curclust filesize then some ⟨-1,d,start,gotsize⟩
  else allocate g start (filesize+1) d curclust curclust (bytesperclust g) filesize gotsize buffer

def set_clusters (d : Disk) (start curclust filesize gotsize : ℕ) (buffer : List UInt8) : Option Written :=
  if curclust = 0 then
    let curclust := find_empty_cluster g.fatsize d.fat
    set_new_clusters g d curclust curclust filesize gotsize buffer
  else
    let newclust := get_fatent g.fatsize d.fat curclust
    if IS_LAST_CLUST newclust g.fatsize then
      let (newclust,fat) := determine_fatent g.fatsize d.fat curclust
      set_new_clusters g { d with fat := set_fatent_value g.fatsize fat curclust newclust } start newclust filesize gotsize buffer
    else some ⟨-1,d,start,gotsize⟩

/-- The clusters behind `endclust` are released. -/
def truncate (d : Disk) (endclust : ℕ) : Disk :=
  let newclust := get_fatent g.fatsize d.fat endclust
  if IS_LAST_CLUST newclust g.fatsize then d
  else { d with fat := set_fatent_value g.fatsize (clear_fatent g.fatsize d.fat newclust) endclust g.fatsize.mark }

def overwritten (start filesize : ℕ) : Option Overwritten → Option Written
  | none => none
  | some (.failed d gotsize) => some ⟨-1,d,start,gotsize⟩
  | some (.done d endclust gotsize) => some ⟨0,truncate g d endclust,start,gotsize⟩
  | some (.full d endclust cur_pos gotsize buffer) => set_clusters g d start endclust (filesize-cur_pos) gotsize buffer

/-- `start` is the start cluster in the directory entry, `none` a loop that does not end. -/
def set_contents (d : Disk) (start pos : ℕ) (buffer : List UInt8) : Option Written :=
  let filesize := pos+buffer.length
  if filesize = 0 then
    if start = 0 then some ⟨0,d,start,0⟩
    else if ¬CHECK_CLUST start g.fatsize ∨ IS_LAST_CLUST start g.fatsize then
      some ⟨0,{ d with fat := clear_fatent g.fatsize d.fat start },0,0⟩
    else some ⟨-1,d,start,0⟩
  else if start = 0 then set_clusters g d start 0 filesize 0 buffer
  else
    match set_position g d pos (pos+1) start (bytesperclust g) with
    | none => none
    | some none => some ⟨-1,d,start,0⟩
    | some (some (curclust,cur_pos)) =>
      if IS_LAST_CLUST curclust g.fatsize then set_clusters g d start curclust filesize 0 buffer
      else
        overwritten g start filesize
          (overwrite g pos filesize (filesize+2) d curclust curclust 0 (bytesperclust g) (cur_pos-bytesperclust g) 0 buffer)

/-! ## Clusters -/

def clust_at (c : ℕ) : ℕ := clust_to_sect g c*g.sect_size

def cluster_bytes (d : Disk) (c : ℕ) : List UInt8 := load d.bytes (clust_at g c) (bytesperclust g)

def contents (d : Disk) (chain : List ℕ) : List UInt8 := chain.flatMap (cluster_bytes g d)

def Inside (c : ℕ) : Prop := 2 ≤ c ∧ c < g.max_clust

def Outside (chain : List ℕ) (a : ℕ) : Prop := ∀ c ∈ chain, a < clust_at g c ∨ clust_at g c+bytesperclust g ≤ a

def Keeps (chain : List ℕ) (d d' : Disk) : Prop := ∀ a, Outside g chain a → d'.bytes a = d.bytes a

variable {g}

theorem bytes_pos : 0 < bytesperclust g := mul_pos g.cluster g.sector

theorem Inside.number {c : ℕ} (inside : Inside g c) : Number g.fatsize c := ⟨inside.1,lt_of_lt_of_le inside.2 g.numbers⟩

theorem clust_at_add {c : ℕ} (low : 2 ≤ c) (m : ℕ) : clust_at g (c+m) = clust_at g c+m*bytesperclust g := by
  have shift : c+m-2 = (c-2)+m := by omega
  rw [clust_at,clust_at,clust_to_sect,clust_to_sect,shift,bytesperclust]
  ring

/-- A cluster ends where a later one begins, or before. -/
theorem clust_at_lt {c e : ℕ} (low : 2 ≤ c) (before : c < e) : clust_at g c+bytesperclust g ≤ clust_at g e := by
  obtain ⟨k,rfl⟩ : ∃ k, e = c+(k+1) := ⟨e-c-1,by omega⟩
  rw [clust_at_add low,add_mul,one_mul]
  omega

/-- Clusters from `c` on that are all in the volume are on the device. -/
theorem sectors_inside {c k : ℕ} (low : 2 ≤ c) (high : c+k ≤ g.max_clust) : clust_to_sect g c+k*g.clust_size ≤ g.total_sector := by
  have device := g.device
  have count : (c-2)*g.clust_size+k*g.clust_size ≤ (g.max_clust-2)*g.clust_size := by
    rw [← add_mul]
    exact Nat.mul_le_mul_right _ (by omega)
  unfold clust_to_sect
  omega

theorem contents_nil (d : Disk) : contents g d [] = [] := rfl

theorem contents_cons (d : Disk) (c : ℕ) (chain : List ℕ) : contents g d (c :: chain) = cluster_bytes g d c ++ contents g d chain := by
  simp [contents]

theorem contents_append (d : Disk) (front back : List ℕ) : contents g d (front ++ back) = contents g d front ++ contents g d back := by
  simp [contents]

theorem contents_length (d : Disk) (chain : List ℕ) : (contents g d chain).length = chain.length*bytesperclust g := by
  induction chain with
  | nil => simp [contents]
  | cons c chain ih =>
    rw [contents_cons,length_append,ih,cluster_bytes,load_length,length_cons]
    ring

/-- Consecutive clusters are one block of bytes. -/
theorem contents_run (d : Disk) {c : ℕ} (low : 2 ≤ c) (k : ℕ) :
    contents g d (range' c k) = load d.bytes (clust_at g c) (k*bytesperclust g) := by
  induction k with
  | zero => simp [contents,load]
  | succ k ih =>
    have one : contents g d [c+k] = load d.bytes (clust_at g c+k*bytesperclust g) (bytesperclust g) := by
      rw [contents_cons,contents_nil,append_nil,cluster_bytes,clust_at_add low]
    rw [range'_concat,contents_append,ih,one_mul,one,add_mul,one_mul,load_append]

theorem get_cluster_run (d : Disk) {c k size : ℕ} (low : 2 ≤ c) (high : c+k ≤ g.max_clust) (fits : size ≤ k*bytesperclust g) :
    get_cluster g d c size = some (load d.bytes (clust_at g c) size) := by
  have sectors : (size+g.sect_size-1)/g.sect_size ≤ k*g.clust_size := by
    rw [Nat.div_le_iff_le_mul_add_pred g.sector]
    have : k*bytesperclust g = g.sect_size*(k*g.clust_size) := by
      rw [bytesperclust]
      ring
    omega
  have device := sectors_inside low high
  have covers : size ≤ (size+g.sect_size-1)/g.sect_size*g.sect_size := by
    have split := Nat.div_add_mod (size+g.sect_size-1) g.sect_size
    have small := Nat.mod_lt (size+g.sect_size-1) g.sector
    rw [mul_comm] at split
    omega
  have positive : c > 0 := by omega
  simp only [get_cluster,disk_read,positive,if_true]
  rw [if_neg (by omega),Option.map_some,load_take _ _ covers]
  rfl

/-! ## The read -/

theorem int_arg_small {n : ℕ} (small : n < 2^31) : int_arg n = n := by
  unfold int_arg
  have same : n%2^32 = n := Nat.mod_eq_of_lt (by omega)
  rw [same,if_pos small]

section reading
variable {d : Disk}

theorem range_last {c m : ℕ} : c+m ∈ range' c (m+1) := mem_range'_1.mpr ⟨by omega,by omega⟩

/-- There is a round left where there are bytes left. -/
theorem some_round {m rounds filesize : ℕ} (more : m*bytesperclust g < filesize) (enough : filesize ≤ (m+rounds)*bytesperclust g) :
    ∃ k, rounds = k+1 := by
  cases rounds with
  | zero =>
    rw [add_zero] at enough
    omega
  | succ k => exact ⟨k,rfl⟩

/-- The loops read the rest of a chain, up to a size. -/
theorem get_runs_chain {cur m : ℕ} {rest : List ℕ} (linked : Linked g.fatsize d.fat ((cur+m) :: rest))
    (inside : ∀ c ∈ range' cur (m+1) ++ rest, Inside g c) {filesize : ℕ}
    (fits : filesize ≤ (m+1+rest.length)*bytesperclust g) (small : filesize < 2^31) (more : m*bytesperclust g < filesize)
    {rounds : ℕ} (enough : filesize ≤ (m+rounds)*bytesperclust g) (got : List UInt8) :
    get_runs g d rounds cur (cur+m) ((m+1)*bytesperclust g) filesize got =
      some (some (got ++ (contents g d (range' cur (m+1) ++ rest)).take filesize)) := by
  induction rest generalizing cur m filesize rounds got with
  | nil =>
    obtain ⟨rounds,rfl⟩ : ∃ more, rounds = more+1 := some_round more enough
    have first := (inside cur (by simp)).1
    have final := (inside (cur+m) (by simp)).2
    rw [length_nil,add_zero] at fits
    rw [get_runs,if_neg (by omega),int_arg_small small,get_cluster_run d first (show cur+(m+1) ≤ g.max_clust by omega) fits]
    simp only [append_nil]
    rw [contents_run d first,load_take _ _ fits]
  | cons e rest ih =>
    obtain ⟨rounds,rfl⟩ : ∃ more, rounds = more+1 := some_round more enough
    have first := (inside cur (by simp)).1
    have final := inside (cur+m) (mem_append_left _ range_last)
    have high : cur+(m+1) ≤ g.max_clust := by
      have := final.2
      omega
    have next : get_fatent g.fatsize d.fat (cur+m) = e := by
      rw [get_number final.number]
      exact linked.1
    have valid := (inside e (by simp)).number.valid
    rw [get_runs]
    by_cases further : (m+1)*bytesperclust g < filesize
    · rw [if_pos further]
      simp only [next]
      by_cases gap : e ≠ cur+m+1
      · have run : get_cluster g d cur (int_arg ((m+1)*bytesperclust g)) = some (contents g d (range' cur (m+1))) := by
          rw [int_arg_small (by omega),get_cluster_run d first high le_rfl,contents_run d first]
        have later := @ih e 0 (linked.2) (fun c member => inside c (by
            simp at member ⊢
            tauto)) (filesize-(m+1)*bytesperclust g) (by
            simp only [length_cons] at fits
            have : (m+1+(rest.length+1))*bytesperclust g = (m+1)*bytesperclust g+(0+1+rest.length)*bytesperclust g := by ring
            omega) (by omega) (by omega) rounds (by
            have : (m+(rounds+1))*bytesperclust g = (m+1)*bytesperclust g+(0+rounds)*bytesperclust g := by ring
            omega) (got ++ contents g d (range' cur (m+1)))
        simp only [add_zero,zero_add,one_mul,range'_one] at later
        rw [if_pos gap,run]
        simp only [if_neg valid]
        rw [later]
        have split : range' cur (m+1) ++ e :: rest = range' cur (m+1) ++ ([e] ++ rest) := by simp
        have whole : (contents g d (range' cur (m+1))).take filesize = contents g d (range' cur (m+1)) :=
          take_of_length_le (by rw [contents_length,length_range']; omega)
        rw [split,contents_append d (range' cur (m+1)),take_append,whole,contents_length,length_range',
          append_assoc]
      · have same : e = cur+m+1 := not_not.mp gap
        subst same
        have longer : range' cur (m+1+1) = range' cur (m+1) ++ [cur+m+1] := by
          rw [range'_concat,one_mul]
          rfl
        have shift : cur+(m+1) = cur+m+1 := by omega
        have later := @ih cur (m+1) (by rw [shift]; exact linked.2) (fun c member => inside c (by
            rw [longer] at member
            simpa using member)) filesize (by
            simp only [length_cons] at fits
            have : m+1+(rest.length+1) = m+1+1+rest.length := by omega
            rwa [this] at fits) small further rounds (by
            have : m+(rounds+1) = m+1+rounds := by omega
            rwa [this] at enough) got
        have size : (m+1+1)*bytesperclust g = (m+1)*bytesperclust g+bytesperclust g := by ring
        rw [if_neg gap,if_neg valid]
        rw [longer,shift,size] at later
        rw [later]
        simp
    · rw [if_neg further,int_arg_small small,get_cluster_run d first high (by omega)]
      simp only
      rw [contents_append,take_append_of_le_length (by rw [contents_length,length_range']; omega),contents_run d first,
        load_take _ _ (by omega)]

theorem get_position_chain {pos c : ℕ} {rest : List ℕ} (linked : Linked g.fatsize d.fat (c :: rest))
    (inside : ∀ x ∈ c :: rest, Inside g x) {done : ℕ} (reached : done ≤ pos)
    (before : pos < done+(rest.length+1)*bytesperclust g) {rounds : ℕ} (enough : pos < done+rounds*bytesperclust g) :
    ∃ front e back, c :: rest = front ++ e :: back ∧
      get_position g d pos rounds c (done+bytesperclust g) =
        some (some (e,done+front.length*bytesperclust g+bytesperclust g)) ∧
      done+front.length*bytesperclust g ≤ pos ∧ pos < done+front.length*bytesperclust g+bytesperclust g := by
  obtain ⟨rounds,rfl⟩ := Nat.exists_eq_add_one_of_ne_zero (show rounds ≠ 0 by rintro rfl; omega)
  induction rest generalizing c done rounds with
  | nil =>
    simp only [length_nil,zero_add,one_mul] at before
    refine ⟨[],c,[],rfl,?_,?_,?_⟩
    · rw [get_position,if_neg (by omega)]
      simp
    · simpa using reached
    · simpa using before
  | cons e rest ih =>
    have number := (inside c mem_cons_self).number
    have valid := (inside e (by simp)).number.valid
    rw [get_position]
    by_cases further : done+bytesperclust g ≤ pos
    · have next : get_fatent g.fatsize d.fat c = e := by
        rw [get_number number]
        exact linked.1
      obtain ⟨k,rfl⟩ := Nat.exists_eq_add_one_of_ne_zero (show rounds ≠ 0 by rintro rfl; omega)
      obtain ⟨front,x,back,split,walked,low,high⟩ := @ih e linked.2 (fun y member => inside y (mem_cons_of_mem _ member))
        (done+bytesperclust g) further (by
          simp only [length_cons] at before
          have : (rest.length+1+1)*bytesperclust g = bytesperclust g+(rest.length+1)*bytesperclust g := by ring
          omega) k (by
          have : (k+1+1)*bytesperclust g = bytesperclust g+(k+1)*bytesperclust g := by ring
          omega)
      have size : (c :: front).length*bytesperclust g = bytesperclust g+front.length*bytesperclust g := by
        rw [length_cons]
        ring
      refine ⟨c :: front,x,back,by rw [split]; rfl,?_,by omega,by omega⟩
      rw [if_pos further]
      simp only [next,if_neg valid]
      rw [walked,size]
      congr 4
      omega
    · refine ⟨[],c,e :: rest,rfl,?_,by simpa using reached,by simp; omega⟩
      rw [if_neg further]
      simp

theorem get_from_chain {e : ℕ} {back : List ℕ} (linked : Linked g.fatsize d.fat (e :: back)) (inside : ∀ c ∈ e :: back, Inside g c)
    {pos filesize : ℕ} (within : pos < bytesperclust g) (some_bytes : pos < filesize)
    (filled : filesize ≤ (back.length+1)*bytesperclust g) (small : filesize < 2^31) :
    get_from g d e pos filesize = some (some (((contents g d (e :: back)).drop pos).take (filesize-pos))) := by
  have positive := @bytes_pos g
  have rounds : filesize ≤ (0+(filesize+1))*bytesperclust g := by
    have : (filesize+1)*1 ≤ (filesize+1)*bytesperclust g := Nat.mul_le_mul_left _ positive
    rw [zero_add]
    omega
  have here := inside e mem_cons_self
  have length : (cluster_bytes g d e).length = bytesperclust g := load_length _ _ _
  have dropped : (contents g d (e :: back)).drop pos = (cluster_bytes g d e).drop pos ++ contents g d back := by
    rw [contents_cons,drop_append_of_le_length (by omega)]
  have behind : ((cluster_bytes g d e).drop pos).length = bytesperclust g-pos := by rw [length_drop,length]
  unfold get_from
  by_cases aligned : pos ≠ 0
  · have first : get_cluster g d e (min filesize (bytesperclust g)) = some ((cluster_bytes g d e).take filesize) := by
      rw [get_cluster_run d here.1 (show e+1 ≤ g.max_clust from here.2) (by omega),cluster_bytes]
      by_cases short : filesize ≤ bytesperclust g
      · rw [min_eq_left short,load_take _ _ short]
      · rw [min_eq_right (by omega),take_of_length_le (by rw [load_length]; omega)]
    rw [if_pos aligned,dropped]
    simp only [first]
    by_cases last : filesize-min filesize (bytesperclust g) = 0
    · rw [if_pos last,take_append_of_le_length (by omega),drop_take]
    have long : bytesperclust g < filesize := by omega
    have whole : (cluster_bytes g d e).take filesize = cluster_bytes g d e := take_of_length_le (by omega)
    cases back with
    | nil =>
      simp only [length_nil,zero_add,one_mul] at filled
      omega
    | cons x back =>
      have next : get_fatent g.fatsize d.fat e = x := by
        rw [get_number here.number]
        exact linked.1
      have valid := (inside x (by simp)).number.valid
      have left : filesize-min filesize (bytesperclust g) = filesize-bytesperclust g := by omega
      have rest := @get_runs_chain g d x 0 back linked.2 (fun y member => inside y (by
          simp at member ⊢
          tauto)) (filesize-bytesperclust g) (by
          simp only [length_cons] at filled
          have : (back.length+1+1)*bytesperclust g = bytesperclust g+(0+1+back.length)*bytesperclust g := by ring
          omega) (by omega) (by omega) (filesize+1) (by omega) ((cluster_bytes g d e).drop pos)
      simp only [add_zero,zero_add,one_mul,range'_one,singleton_append] at rest
      rw [if_neg last,next,if_neg valid,whole,left,rest,take_append,behind]
      have front : ((cluster_bytes g d e).drop pos).take (filesize-pos) = (cluster_bytes g d e).drop pos :=
        take_of_length_le (by omega)
      have size : filesize-pos-(bytesperclust g-pos) = filesize-bytesperclust g := by omega
      rw [front,size]
  · obtain rfl : pos = 0 := by omega
    have rest := @get_runs_chain g d e 0 back linked (by simpa using inside) filesize (by
      have : (back.length+1)*bytesperclust g = (0+1+back.length)*bytesperclust g := by ring
      omega) small (by omega) (filesize+1) rounds []
    simp only [add_zero,zero_add,one_mul,range'_one,singleton_append,nil_append] at rest
    rw [if_neg aligned,rest,drop_zero,Nat.sub_zero]

end reading

/-- A part of some bytes. A length of zero stands for the rest. -/
def slice (bytes : List UInt8) (pos maxsize : ℕ) : List UInt8 :=
  if maxsize = 0 then bytes.drop pos else (bytes.drop pos).take maxsize

/-- The first `size` bytes of a chain are read as they are. -/
theorem get_contents_chain {d : Disk} {chain : List ℕ} (linked : Linked g.fatsize d.fat chain) (inside : ∀ c ∈ chain, Inside g c)
    {size : ℕ} (filled : size ≤ chain.length*bytesperclust g) (small : size < 2^31) (pos maxsize : ℕ) :
    get_contents g d (chain.headD 0) size pos maxsize = some (some (slice ((contents g d chain).take size) pos maxsize)) := by
  have positive := @bytes_pos g
  unfold get_contents
  by_cases behind : pos ≥ size
  · rw [if_pos behind]
    have empty : ((contents g d chain).take size).drop pos = [] := drop_eq_nil_of_le (by rw [length_take]; omega)
    simp [slice,empty]
  rw [if_neg behind]
  -- What is read ends at `filesize`.
  obtain ⟨filesize,filesizeIs⟩ : ∃ n, n = if maxsize > 0 ∧ size > pos+maxsize then pos+maxsize else size := ⟨_,rfl⟩
  have sliced : slice ((contents g d chain).take size) pos maxsize = ((contents g d chain).drop pos).take (filesize-pos) := by
    rw [slice,drop_take,filesizeIs]
    by_cases whole : maxsize = 0
    · simp [whole]
    · rw [if_neg whole,take_take]
      congr 1
      split_ifs with short <;> omega
  have bounds : pos < filesize ∧ filesize ≤ size := by
    rw [filesizeIs]
    split_ifs with short <;> omega
  rw [← filesizeIs,sliced]
  cases chain with
  | nil =>
    rw [length_nil,zero_mul] at filled
    omega
  | cons c rest =>
    have room : pos < 0+(rest.length+1)*bytesperclust g := by
      rw [length_cons] at filled
      omega
    have rounds : pos < 0+(pos+1)*bytesperclust g := by
      have : (pos+1)*1 ≤ (pos+1)*bytesperclust g := Nat.mul_le_mul_left _ positive
      omega
    obtain ⟨front,e,back,split,walked,low,high⟩ := get_position_chain linked inside (Nat.zero_le pos) room rounds
    simp only [zero_add] at walked low high
    simp only [headD_cons,walked,Nat.add_sub_cancel]
    rw [split] at linked inside filled ⊢
    obtain ⟨base,baseIs⟩ : ∃ n, n = front.length*bytesperclust g := ⟨_,rfl⟩
    rw [← baseIs] at low high ⊢
    have length : base+(back.length+1)*bytesperclust g = (front ++ e :: back).length*bytesperclust g := by
      rw [baseIs,length_append,length_cons]
      ring
    have rest := @get_from_chain g d e back (linked_drop linked) (fun y member => inside y (mem_append_right _ member))
      (pos-base) (filesize-base) (by omega) (by omega) (by omega) (by omega)
    have dropped : (contents g d (front ++ e :: back)).drop pos = (contents g d (e :: back)).drop (pos-base) := by
      rw [contents_append,drop_append,contents_length,← baseIs,drop_eq_nil_of_le (by rw [contents_length]; omega),
        nil_append]
    have size : filesize-base-(pos-base) = filesize-pos := by omega
    rw [rest,dropped,size]

end
end UBoot.FatFile
