import UBoot.FatFile

/-!
What `set_contents` leaves on a FAT volume. The search for free clusters is not told where the
volume ends. Where it gets to a number that no cluster has, `set_contents` returns 0 without the
rest of the buffer.
-/
namespace UBoot.FatFile
open UBoot.Memory UBoot.Fat List Function

section
variable {g : Fsdata}

variable {back buffer bytes front new : List UInt8} {cur m off : ℕ} {rest : List ℕ}

theorem overlay_load (m : ℕ → UInt8) (a : ℕ) {off n : ℕ} (fits : off+new.length ≤ n) :
    overlay (load m a n) off new = load m a off ++ new ++ load m (a+(off+new.length)) (n-(off+new.length)) := by
  have split : n = (off+new.length)+(n-(off+new.length)) := by omega
  rw [overlay,load_take m a (by omega)]
  congr 1
  conv_lhs => rw [split]
  exact load_drop m a _ _

/-- A block that is read, changed and written back is changed in place. -/
theorem store_overlay (m : ℕ → UInt8) (a : ℕ) {off n : ℕ} {new : List UInt8} (fits : off+new.length ≤ n) :
    store m a (overlay (load m a n) off new) = store m (a+off) new := by
  have behind : load m (a+(off+new.length)) (n-(off+new.length)) =
      load (store m (a+off) new) (a+(off+new.length)) (n-(off+new.length)) :=
    (load_store_apart m (.inr (by omega))).symm
  have place : a+(off+new.length) = a+(load m a off ++ new).length := by simp
  rw [overlay_load m a fits,store_append,store_append,store_load,load_length,← place,behind,store_load]

theorem load_overlay (m : ℕ → UInt8) (a : ℕ) {off n : ℕ} (fits : off+new.length ≤ n) :
    load (store m (a+off) new) a n = overlay (load m a n) off new := by
  have split : n = off+(new.length+(n-(off+new.length))) := by omega
  have first : load (store m (a+off) new) a off = load m a off := load_store_apart m (.inl (by omega))
  have last : load (store m (a+off) new) (a+(off+new.length)) (n-(off+new.length)) =
      load m (a+(off+new.length)) (n-(off+new.length)) := load_store_apart m (.inr (by omega))
  rw [overlay_load m a fits]
  conv_lhs => rw [split]
  rw [load_append,load_append,first,load_store,add_assoc,last,append_assoc]

/-- A change of two blocks is a change of each. -/
theorem overlay_append (starts : off ≤ front.length) (long : front.length-off ≤ new.length) :
    overlay (front ++ back) off new = overlay front off (new.take (front.length-off)) ++ overlay back 0 (new.drop (front.length-off)) := by
  have size : (new.take (front.length-off)).length = front.length-off := by
    rw [length_take]
    omega
  have rest : (new.drop (front.length-off)).length = new.length-(front.length-off) := length_drop
  unfold overlay
  rw [take_append_of_le_length starts,drop_append,drop_eq_nil_of_le (show front.length ≤ off+new.length by omega),
    drop_eq_nil_of_le (show front.length ≤ off+(new.take (front.length-off)).length by omega),rest]
  have same : 0+(new.length-(front.length-off)) = off+new.length-front.length := by omega
  simp only [same,nil_append,append_nil,take_zero,append_assoc]
  rw [← append_assoc (new.take (front.length-off)),take_append_drop]

/-! ## Sectors -/

def Disk.put (d : Disk) (a : ℕ) (bytes : List UInt8) : Disk := { d with bytes := store d.bytes a bytes }

@[simp] theorem put_fat (d : Disk) (a : ℕ) (bytes : List UInt8) : (d.put a bytes).fat = d.fat := rfl

@[simp] theorem put_bytes (d : Disk) (a : ℕ) (bytes : List UInt8) : (d.put a bytes).bytes = store d.bytes a bytes := rfl

theorem put_nil (d : Disk) (a : ℕ) : d.put a [] = d := by simp [Disk.put]

theorem put_append (d : Disk) (a : ℕ) (first second : List UInt8) : d.put a (first ++ second) = (d.put a first).put (a+first.length) second := by
  simp [Disk.put,store_append]

theorem write_blocks_put {d : Disk} {sect nr : ℕ} (inside : sect+nr ≤ g.total_sector)
    (length : bytes.length = nr*g.sect_size) : write_blocks g d sect nr bytes = some (d.put (sect*g.sect_size) bytes) := by
  unfold write_blocks disk_write
  by_cases none_ : nr = 0
  · rw [none_,zero_mul,length_eq_zero_iff] at length
    rw [if_pos none_,length,put_nil]
  · rw [if_neg none_,if_neg (by omega)]
    rfl

theorem change_cluster_put {d : Disk} {sect pos : ℕ} (inside : sect+g.clust_size ≤ g.total_sector)
    (fits : pos+bytes.length ≤ bytesperclust g) : change_cluster g d sect pos bytes = some (d.put (sect*g.sect_size+pos) bytes) := by
  unfold change_cluster disk_read disk_write
  rw [if_neg (by omega)]
  simp only
  have same : pos+bytes.length ≤ g.clust_size*g.sect_size := fits
  rw [if_neg (by omega),store_overlay _ _ same]
  rfl

/-- A buffer as whole units and a rest. -/
theorem whole_units {unit k : ℕ} (pos : 0 < unit) {buffer : List UInt8} (fits : buffer.length ≤ k*unit) :
    ∃ n, n = buffer.length/unit ∧ n ≤ k ∧ (buffer.take (n*unit)).length = n*unit ∧
      n*unit+(buffer.drop (n*unit)).length = buffer.length ∧ (buffer.drop (n*unit)).length < unit ∧
      (buffer.drop (n*unit) ≠ [] → n+1 ≤ k) := by
  have division := Nat.div_add_mod' buffer.length unit
  have small := Nat.mod_lt buffer.length pos
  have few := Nat.div_le_of_le_mul (mul_comm k unit ▸ fits)
  obtain ⟨n,nIs⟩ : ∃ n, n = buffer.length/unit := ⟨_,rfl⟩
  rw [← nIs] at division few
  refine ⟨n,nIs,few,by rw [length_take]; omega,by rw [length_drop]; omega,by rw [length_drop]; omega,fun ends => ?_⟩
  have some_bytes := length_pos_iff.mpr ends
  rw [length_drop] at some_bytes
  by_contra full
  obtain rfl : k = n := by omega
  omega

theorem set_sectors_put {d : Disk} {sect k : ℕ} {buffer : List UInt8} (inside : sect+k ≤ g.total_sector)
    (fits : buffer.length ≤ k*g.sect_size) :
    ∃ pad, buffer.length+pad.length ≤ k*g.sect_size ∧ set_sectors g d sect buffer = (true,d.put (sect*g.sect_size) (buffer ++ pad)) := by
  obtain ⟨n,nIs,few,front,back,small,more⟩ := whole_units g.sector fits
  have whole : buffer.take (n*g.sect_size) ++ buffer.drop (n*g.sect_size) = buffer := take_append_drop _ _
  unfold set_sectors
  simp only [← nIs]
  rw [write_blocks_put (by omega) front]
  simp only
  by_cases ends : buffer.drop (n*g.sect_size) = []
  · refine ⟨[],by simpa using fits,?_⟩
    rw [if_pos ends]
    rw [ends,append_nil] at whole
    rw [whole,append_nil]
  have room := more ends
  have count := Nat.mul_le_mul_right g.sect_size room
  rw [Nat.succ_mul] at count
  refine ⟨replicate (g.sect_size-(buffer.drop (n*g.sect_size)).length) 0,by rw [length_replicate]; omega,?_⟩
  unfold disk_write
  rw [if_neg ends,if_neg (by omega)]
  have place : (sect+n)*g.sect_size = sect*g.sect_size+(buffer.take (n*g.sect_size)).length := by
    rw [front]
    ring
  simp only [place]
  conv_rhs => rw [← whole,append_assoc,put_append]
  simp [Disk.put]

theorem set_full_clusters_put {d : Disk} {sect k : ℕ} (inside : sect+k*g.clust_size ≤ g.total_sector)
    (fits : buffer.length ≤ k*bytesperclust g) : set_full_clusters g d sect buffer = (true,d.put (sect*g.sect_size) buffer) := by
  obtain ⟨n,nIs,few,front,-,small,more⟩ := whole_units (@bytes_pos g) fits
  have sectors : n*g.clust_size ≤ k*g.clust_size := Nat.mul_le_mul_right _ few
  have bytes : n*bytesperclust g = n*g.clust_size*g.sect_size := by
    rw [bytesperclust]
    ring
  have whole : buffer.take (n*bytesperclust g) ++ buffer.drop (n*bytesperclust g) = buffer := take_append_drop _ _
  unfold set_full_clusters
  simp only [← nIs]
  rw [write_blocks_put (by omega) (front.trans bytes)]
  simp only
  by_cases ends : buffer.drop (n*bytesperclust g) = []
  · rw [if_pos ends]
    rw [ends,append_nil] at whole
    rw [whole]
  have count := Nat.mul_le_mul_right g.clust_size (more ends)
  rw [Nat.succ_mul] at count
  rw [if_neg ends,change_cluster_put (by omega) (by omega)]
  have place : (sect+n*g.clust_size)*g.sect_size+0 = sect*g.sect_size+(buffer.take (n*bytesperclust g)).length := by
    rw [front,bytes]
    ring
  simp only [place]
  conv_rhs => rw [← whole,put_append]

theorem get_set_cluster_put {d : Disk} {c pos k : ℕ} (inside : clust_to_sect g c+k*g.clust_size ≤ g.total_sector)
    (within : pos ≤ bytesperclust g) (fits : pos+buffer.length ≤ k*bytesperclust g) :
    get_set_cluster g d c pos buffer = (true,d.put (clust_at g c+pos) buffer) := by
  unfold get_set_cluster
  by_cases nothing : buffer = []
  · rw [if_pos nothing,nothing,put_nil]
  rw [if_neg nothing]
  have some_bytes := length_pos_iff.mpr nothing
  obtain ⟨j,rfl⟩ := Nat.exists_eq_add_one_of_ne_zero (show k ≠ 0 by rintro rfl; omega)
  have count : (j+1)*g.clust_size = g.clust_size+j*g.clust_size := by ring
  have bytes : (j+1)*bytesperclust g = bytesperclust g+j*bytesperclust g := by ring
  by_cases first : pos ≠ 0
  · rw [if_pos first]
    have size : (buffer.take (min (bytesperclust g-pos) buffer.length)).length = min (bytesperclust g-pos) buffer.length := by
      rw [length_take]
      omega
    have whole := take_append_drop (min (bytesperclust g-pos) buffer.length) buffer
    simp only [change_cluster_put (show clust_to_sect g c+g.clust_size ≤ g.total_sector by omega)
      (show pos+(buffer.take (min (bytesperclust g-pos) buffer.length)).length ≤ bytesperclust g by omega)]
    by_cases ends : buffer.drop (min (bytesperclust g-pos) buffer.length) = []
    · rw [if_pos ends]
      rw [ends,append_nil] at whole
      rw [whole]
      rfl
    have left := length_pos_iff.mpr ends
    rw [length_drop] at left
    have place : (clust_to_sect g c+g.clust_size)*g.sect_size =
        clust_to_sect g c*g.sect_size+pos+(buffer.take (min (bytesperclust g-pos) buffer.length)).length := by
      rw [size,min_eq_left (by omega),add_mul,add_assoc,Nat.add_sub_cancel' within]
      rfl
    rw [if_neg ends,set_full_clusters_put (show clust_to_sect g c+g.clust_size+j*g.clust_size ≤ g.total_sector by omega)
      (by rw [length_drop]; omega),place,← put_append,whole]
    rfl
  · rw [if_neg first,set_full_clusters_put inside (by omega)]
    obtain rfl : pos = 0 := by omega
    rfl

/-! ## Frames -/

theorem overlay_left (fits : off+new.length ≤ front.length) :
    overlay (front ++ back) off new = overlay front off new ++ back := by
  unfold overlay
  rw [take_append_of_le_length (by omega),drop_append_of_le_length fits]
  simp

theorem Keeps.trans {first second : List ℕ} {d d' d'' : Disk} (one : Keeps g first d d') (two : Keeps g second d' d'') :
    Keeps g (first ++ second) d d'' := by
  intro a outside
  rw [two a (fun c member => outside c (mem_append_right _ member)),one a (fun c member => outside c (mem_append_left _ member))]

theorem Keeps.mono {first second : List ℕ} {d d' : Disk} (keeps : Keeps g first d d') (more : first ⊆ second) : Keeps g second d d' :=
  fun a outside => keeps a (fun c member => outside c (more member))

theorem outside_run {c k a : ℕ} (low : 2 ≤ c) (outside : Outside g (range' c k) a) :
    a < clust_at g c ∨ clust_at g c+k*bytesperclust g ≤ a := by
  have positive := @bytes_pos g
  by_contra within
  obtain ⟨n,nIs⟩ : ∃ n, n = (a-clust_at g c)/bytesperclust g := ⟨_,rfl⟩
  have division := Nat.div_add_mod (a-clust_at g c) (bytesperclust g)
  have small := Nat.mod_lt (a-clust_at g c) positive
  rw [← nIs,mul_comm] at division
  have few : n < k := by
    rw [nIs,Nat.div_lt_iff_lt_mul positive]
    omega
  have place := outside (c+n) (mem_range'_1.mpr ⟨by omega,by omega⟩)
  rw [clust_at_add low] at place
  omega

theorem put_keeps {d : Disk} {c k off : ℕ} (low : 2 ≤ c) (fits : off+bytes.length ≤ k*bytesperclust g) :
    Keeps g (range' c k) d (d.put (clust_at g c+off) bytes) := by
  intro a outside
  rcases outside_run low outside with below | above
  · exact store_below _ _ (by omega)
  · exact store_above _ _ (by omega)

theorem contents_keeps {changed chain : List ℕ} {d d' : Disk} (keeps : Keeps g changed d d') (apart : chain.Disjoint changed)
    (low : ∀ c ∈ chain, 2 ≤ c) (lows : ∀ c ∈ changed, 2 ≤ c) : contents g d' chain = contents g d chain := by
  apply flatMap_congr
  intro c member
  apply load_congr
  intro i inside
  apply keeps
  intro e other
  have different : c ≠ e := fun same => apart member (same ▸ other)
  rcases lt_or_ge c e with before | behind
  · have := @clust_at_lt g c e (low c member) before
    omega
  · have := @clust_at_lt g e c (lows e other) (by omega)
    omega

theorem contents_bytes {d d' : Disk} (same : d'.bytes = d.bytes) (chain : List ℕ) : contents g d' chain = contents g d chain := by
  unfold contents cluster_bytes
  rw [same]

theorem contents_put {d : Disk} {c k off : ℕ} (low : 2 ≤ c) (fits : off+bytes.length ≤ k*bytesperclust g) :
    contents g (d.put (clust_at g c+off) bytes) (range' c k) = overlay (contents g d (range' c k)) off bytes := by
  rw [contents_run _ low,contents_run _ low,put_bytes,load_overlay _ _ fits]

/-! ## Overwriting -/

section overwriting
variable {pos filesize : ℕ}

/-- A run of clusters before others that are not changed with it. -/
structure Run (g : Fsdata) (cur m : ℕ) (rest : List ℕ) : Prop where
  inside : ∀ c ∈ List.range' cur (m+1) ++ rest, Inside g c
  once : (List.range' cur (m+1) ++ rest).Nodup

theorem Run.low (run : Run g cur m rest) : 2 ≤ cur := (run.inside cur (by simp)).1

theorem Run.final (run : Run g cur m rest) : Inside g (cur+m) :=
  run.inside (cur+m) (mem_append_left _ range_last)

theorem Run.sectors (run : Run g cur m rest) : clust_to_sect g cur+(m+1)*g.clust_size ≤ g.total_sector :=
  sectors_inside run.low (show cur+(m+1) ≤ g.max_clust from run.final.2)

/-- The run goes one cluster further. -/
theorem Run.extend (run : Run g cur m ((cur+m+1) :: rest)) : Run g cur (m+1) rest := by
  have longer : range' cur (m+1+1) ++ rest = range' cur (m+1) ++ (cur+m+1) :: rest := by
    rw [range'_concat,one_mul,append_assoc]
    rfl
  exact ⟨by rw [longer]; exact run.inside,by rw [longer]; exact run.once⟩

/-- The next run begins. -/
theorem Run.skip {cur m e : ℕ} (run : Run g cur m (e :: rest)) : Run g e 0 rest :=
  ⟨fun c member => run.inside c (mem_append_right _ (by simpa using member)),by simpa using (nodup_append.mp run.once).2.1⟩

theorem Run.apart (run : Run g cur m rest) : rest.Disjoint (range' cur (m+1)) :=
  (disjoint_of_nodup_append run.once).symm

/-- What a write into a run leaves of the run and of the clusters behind it. -/
theorem Run.put {cur m : ℕ} {rest : List ℕ} (run : Run g cur m rest) (d : Disk) {off : ℕ} {bytes : List UInt8}
    (fits : off+bytes.length ≤ (m+1)*bytesperclust g) :
    contents g (d.put (clust_at g cur+off) bytes) (range' cur (m+1)) = overlay (contents g d (range' cur (m+1))) off bytes ∧
    contents g (d.put (clust_at g cur+off) bytes) rest = contents g d rest ∧
    Keeps g (range' cur (m+1)) d (d.put (clust_at g cur+off) bytes) := by
  have keeps := put_keeps (d := d) run.low fits
  refine ⟨contents_put run.low fits,contents_keeps keeps run.apart ?_ ?_,keeps⟩
  · exact fun c member => (run.inside c (mem_append_right _ member)).1
  · exact fun c member => (run.inside c (mem_append_left _ member)).1

theorem range_split (cur m : ℕ) (rest : List ℕ) : range' cur (m+1) ++ rest = range' cur m ++ (cur+m) :: rest := by
  rw [range'_concat,one_mul,append_assoc]
  rfl

theorem offset_eq (cur_pos : ℕ) : (if pos < cur_pos then 0 else pos-cur_pos) = pos-cur_pos := by
  split_ifs <;> omega

section
variable {cur m : ℕ} {rest : List ℕ} {size skip cur_pos : ℕ} (sizeIs : size = (m+1)*bytesperclust g) (skipIs : skip = pos-cur_pos)
include sizeIs skipIs

theorem overwrite_last {d : Disk} (run : Run g cur m rest)
    (within : skip ≤ bytesperclust g) (starts : pos ≤ filesize) (ends : filesize ≤ cur_pos+size)
    (more : cur_pos < filesize) (rounds newclust gotsize : ℕ) (length : buffer.length = filesize-(cur_pos+skip)) :
    overwrite g pos filesize (rounds+1) d cur (cur+m) newclust size cur_pos gotsize buffer =
      some (.done (d.put (clust_at g cur+skip) buffer) (cur+m) (gotsize+buffer.length)) := by
  have place : (if pos < cur_pos then 0 else pos-cur_pos) = skip := (offset_eq cur_pos).trans skipIs.symm
  have here : min size (filesize-cur_pos)-skip = buffer.length := by omega
  have end_of : cur_pos+(skip+buffer.length) = filesize := by omega
  rw [overwrite]
  simp only [place,here,take_length]
  rw [if_neg (by omega),get_set_cluster_put run.sectors within (by omega)]
  simp only [end_of,le_refl,if_true]

theorem overwrite_run {d : Disk} (run : Run g cur m rest) (within : skip ≤ bytesperclust g) (further : cur_pos+size < filesize)
    (gap : get_fatent g.fatsize d.fat (cur+m) = cur+m+1 → IS_LAST_CLUST (get_fatent g.fatsize d.fat (cur+m)) g.fatsize)
    (rounds newclust gotsize : ℕ) (buffer : List UInt8) :
    overwrite g pos filesize (rounds+1) d cur (cur+m) newclust size cur_pos gotsize buffer =
      if IS_LAST_CLUST (get_fatent g.fatsize d.fat (cur+m)) g.fatsize then
        some (.full (d.put (clust_at g cur+skip) (buffer.take (size-skip))) (cur+m) (cur_pos+size) (gotsize+(size-skip))
          (buffer.drop (size-skip)))
      else
        overwrite g pos filesize rounds (d.put (clust_at g cur+skip) (buffer.take (size-skip))) (get_fatent g.fatsize d.fat (cur+m))
          (get_fatent g.fatsize d.fat (cur+m)) (get_fatent g.fatsize d.fat (cur+m)) (bytesperclust g) (cur_pos+size)
          (gotsize+(size-skip)) (buffer.drop (size-skip)) := by
  have one : bytesperclust g ≤ size := sizeIs ▸ Nat.le_mul_of_pos_left _ (Nat.succ_pos m)
  have place : (if pos < cur_pos then 0 else pos-cur_pos) = skip := (offset_eq cur_pos).trans skipIs.symm
  have here : min size (filesize-cur_pos)-skip = size-skip := by omega
  have end_of : cur_pos+(skip+(size-skip)) = cur_pos+size := by omega
  have fits : skip+(buffer.take (size-skip)).length ≤ (m+1)*bytesperclust g := by
    rw [length_take]
    omega
  rw [overwrite]
  simp only [place,here]
  rw [if_neg (by tauto),get_set_cluster_put run.sectors within fits]
  simp only [end_of,gt_iff_lt,further,if_true]
  rw [if_neg (by omega)]

end

/-- The loops overwrite a chain up to the end of the data, or up to the end of the chain. -/
theorem overwrite_chain {d : Disk} {cur m : ℕ} {rest : List ℕ} (linked : Linked g.fatsize d.fat ((cur+m) :: rest)) (run : Run g cur m rest)
    {size skip total cur_pos : ℕ} (sizeIs : size = (m+1)*bytesperclust g) (skipIs : skip = pos-cur_pos)
    (totalIs : total = (m+1+rest.length)*bytesperclust g) (within : skip ≤ bytesperclust g) (starts : pos ≤ filesize)
    (more : cur_pos+m*bytesperclust g < filesize) {rounds : ℕ} (enough : filesize ≤ cur_pos+(m+rounds)*bytesperclust g)
    (newclust gotsize : ℕ) {buffer : List UInt8} (length : buffer.length = filesize-(cur_pos+skip)) :
    ∃ d', d'.fat = d.fat ∧ Keeps g (range' cur (m+1) ++ rest) d d' ∧
      contents g d' (range' cur (m+1) ++ rest) =
        overlay (contents g d (range' cur (m+1) ++ rest)) skip (buffer.take (total-skip)) ∧
      ((filesize ≤ cur_pos+total ∧
        ∃ front e back, range' cur (m+1) ++ rest = front ++ e :: back ∧ cur_pos+front.length*bytesperclust g < filesize ∧
          filesize ≤ cur_pos+(front.length+1)*bytesperclust g ∧
          overwrite g pos filesize rounds d cur (cur+m) newclust size cur_pos gotsize buffer = some (.done d' e (gotsize+buffer.length))) ∨
      (cur_pos+total < filesize ∧
        ∃ front e, range' cur (m+1) ++ rest = front ++ [e] ∧
          overwrite g pos filesize rounds d cur (cur+m) newclust size cur_pos gotsize buffer =
            some (.full d' e (cur_pos+total) (gotsize+(total-skip)) (buffer.drop (total-skip))))) := by
  set clusters := range' cur (m+1)
  have positive := @bytes_pos g
  obtain ⟨rounds,rfl⟩ := Nat.exists_eq_add_one_of_ne_zero (show rounds ≠ 0 by rintro rfl; rw [add_zero] at enough; omega)
  induction rest generalizing d cur m size skip total cur_pos rounds newclust gotsize buffer with
  | nil =>
    have one : bytesperclust g ≤ size := sizeIs ▸ Nat.le_mul_of_pos_left _ (Nat.succ_pos m)
    obtain rfl : total = size := totalIs.trans sizeIs.symm
    simp only [append_nil]
    by_cases ends : filesize ≤ cur_pos+total
    · obtain ⟨same,-,keeps⟩ := run.put d (show skip+buffer.length ≤ (m+1)*bytesperclust g by omega)
      refine ⟨_,put_fat _ _ _,keeps,?_,.inl ⟨ends,range' cur m,cur+m,[],?_,?_,?_,
        overwrite_last sizeIs skipIs run within starts ends (by omega) rounds newclust gotsize length⟩⟩
      · rw [same,take_of_length_le (by omega)]
      · simpa using range_split cur m []
      · rwa [length_range']
      · rwa [length_range',← sizeIs]
    · have last : IS_LAST_CLUST (get_fatent g.fatsize d.fat (cur+m)) g.fatsize := by
        rw [get_number run.final.number]
        exact linked
      obtain ⟨same,-,keeps⟩ := run.put d (show skip+(buffer.take (total-skip)).length ≤ (m+1)*bytesperclust g by
        rw [length_take]; omega)
      refine ⟨_,put_fat _ _ _,keeps,same,.inr ⟨by omega,range' cur m,cur+m,by simpa using range_split cur m [],?_⟩⟩
      rw [overwrite_run sizeIs skipIs run within (by omega) (fun _ => last),if_pos last]
  | cons e rest ih =>
    have one : bytesperclust g ≤ size := sizeIs ▸ Nat.le_mul_of_pos_left _ (Nat.succ_pos m)
    have counts : total = size+(1+rest.length)*bytesperclust g := by
      rw [totalIs,sizeIs,length_cons]
      ring
    by_cases ends : filesize ≤ cur_pos+size
    · obtain ⟨same,others,keeps⟩ := run.put d (show skip+buffer.length ≤ (m+1)*bytesperclust g by omega)
      refine ⟨_,put_fat _ _ _,keeps.mono (subset_append_left _ _),?_,.inl ⟨by omega,range' cur m,cur+m,e :: rest,
        range_split cur m (e :: rest),?_,?_,overwrite_last sizeIs skipIs run within starts ends (by omega) rounds newclust gotsize length⟩⟩
      · rw [contents_append,same,others,contents_append,overlay_left (by rw [contents_length,length_range',length_take]; omega),
          take_of_length_le (by omega)]
      · rwa [length_range']
      · rwa [length_range',← sizeIs]
    have further : cur_pos+size < filesize := by omega
    have next : get_fatent g.fatsize d.fat (cur+m) = e := by
      rw [get_number run.final.number]
      exact linked.1
    have number := (run.inside e (by simp)).number
    obtain ⟨rounds,rfl⟩ := Nat.exists_eq_add_one_of_ne_zero (show rounds ≠ 0 by rintro rfl; rw [zero_add] at enough; omega)
    by_cases consecutive : e = cur+m+1
    · subst consecutive
      have longer : range' cur (m+1+1) ++ rest = clusters ++ (cur+m+1) :: rest := by
        rw [range'_concat,one_mul,append_assoc]
        rfl
      have later := @ih d cur (m+1) linked.2 run.extend (size+bytesperclust g) skip total cur_pos (by rw [sizeIs]; ring) skipIs
        (by rw [totalIs,length_cons]; ring) within (by omega) (cur+m+1) gotsize buffer length rounds (by
        have : m+(rounds+1+1) = m+1+(rounds+1) := by omega
        rwa [this] at enough)
      have step : overwrite g pos filesize (rounds+1+1) d cur (cur+m) newclust size cur_pos gotsize buffer =
          overwrite g pos filesize (rounds+1) d cur (cur+(m+1)) (cur+m+1) (size+bytesperclust g) cur_pos gotsize buffer := by
        rw [overwrite]
        simp only [next]
        rw [if_pos ⟨further,trivial,number.not_last⟩,if_neg number.valid]
        rfl
      rw [longer] at later
      rw [step]
      exact later
    obtain ⟨same,others,keeps⟩ := run.put d (show skip+(buffer.take (size-skip)).length ≤ (m+1)*bytesperclust g by
      rw [length_take]; omega)
    have later := @ih (d.put (clust_at g cur+skip) (buffer.take (size-skip))) e 0 linked.2 run.skip (bytesperclust g) 0
      ((1+rest.length)*bytesperclust g) (cur_pos+size) (by ring) (by omega) (by ring) (Nat.zero_le _) (by omega) e
      (gotsize+(size-skip)) (buffer.drop (size-skip)) (by rw [length_drop]; omega) rounds (by
        have : (m+(rounds+1+1))*bytesperclust g = (m+1)*bytesperclust g+(0+(rounds+1))*bytesperclust g := by ring
        omega)
    have step := overwrite_run sizeIs skipIs run within further (fun impossible => absurd (next.symm.trans impossible) consecutive)
      (rounds+1) newclust gotsize buffer
    rw [next,if_neg number.not_last] at step
    simp only [add_zero,zero_add,range'_one,singleton_append] at later
    obtain ⟨d',fatIs,keeps_rest,restIs,outcome⟩ := later
    have runIs : contents g d' clusters = overlay (contents g d clusters) skip (buffer.take (size-skip)) := by
      rw [contents_keeps keeps_rest run.apart.symm (fun c member => (run.inside c (mem_append_left _ member)).1)
        (fun c member => (run.inside c (mem_append_right _ member)).1),same]
    have runLength : (contents g d clusters).length = size := by
      rw [contents_length,length_range',sizeIs]
    have taken : (buffer.take (total-skip)).take (size-skip) = buffer.take (size-skip) := by
      rw [take_take,min_eq_left (by omega)]
    have left : total-skip-(size-skip) = (1+rest.length)*bytesperclust g-0 := by omega
    refine ⟨d',fatIs,keeps.trans keeps_rest,?_,?_⟩
    · rw [contents_append,runIs,restIs,others,contents_append,
        overlay_append (by rw [runLength]; omega) (by rw [runLength,length_take]; omega),runLength,taken,drop_take,left]
    rw [step]
    rcases outcome with ⟨ends_rest,front,x,back,split,low,high,done⟩ | ⟨long,front,x,split,full⟩
    · refine .inl ⟨by omega,clusters ++ front,x,back,by rw [split,append_assoc],?_,?_,?_⟩
      · rw [length_append,length_range',add_mul]
        omega
      · rw [length_append,length_range',add_assoc,add_mul]
        omega
      · rw [done,length_drop]
        congr 2
        omega
    · refine .inr ⟨by omega,clusters ++ front,x,by rw [split,append_assoc],?_⟩
      rw [full,drop_drop,counts,add_assoc]
      congr 2
      · omega
      · congr 1
        omega

end overwriting

/-! ## Allocating -/

section allocating

def Disk.link (d : Disk) (fat : Table) : Disk := { d with fat := fat }

@[simp] theorem link_fat (d : Disk) (fat : Table) : (d.link fat).fat = fat := rfl

@[simp] theorem link_contents (d : Disk) (fat : Table) (chain : List ℕ) : contents g (d.link fat) chain = contents g d chain := rfl

theorem link_keeps (d : Disk) (fat : Table) (chain : List ℕ) : Keeps g chain d (d.link fat) := fun _ _ => rfl

theorem run_free {fat : Table} {frees : List ℕ} (low : 2 ≤ cur) (high : cur+m < g.max_clust)
    (free : free_clusters fat (cur+m+1) g.max_clust = frees) : Run g cur m frees := by
  have behind : ∀ c ∈ frees, cur+m+1 ≤ c ∧ c < g.max_clust := by
    intro c member
    rw [← free] at member
    have := mem_free.mp member
    exact ⟨this.1,this.2.1⟩
  constructor
  · intro c member
    rcases mem_append.mp member with first | second
    · have := mem_range'_1.mp first
      exact ⟨by omega,by omega⟩
    · have := behind c second
      exact ⟨by omega,this.2⟩
  · rw [nodup_append]
    refine ⟨nodup_range',by rw [← free]; exact free_nodup _ _,?_⟩
    intro a first b second
    have := mem_range'_1.mp first
    have := behind b second
    omega

theorem set_cluster_run {d : Disk} {cur m size : ℕ} {rest : List ℕ} (run : Run g cur m rest) {buffer : List UInt8}
    (fits : size ≤ (m+1)*bytesperclust g) (long : size ≤ buffer.length) (small : size < 2^32) :
    ∃ d', set_cluster g d cur buffer size = (true,d') ∧ d'.fat = d.fat ∧ Keeps g (range' cur (m+1)) d d' ∧
      (contents g d' (range' cur (m+1))).take size = buffer.take size ∧ contents g d' rest = contents g d rest := by
  have length : (buffer.take (size%2^32)).length = size := by
    rw [Nat.mod_eq_of_lt small,length_take]
    omega
  have bytes : (m+1)*bytesperclust g = (m+1)*g.clust_size*g.sect_size := by
    rw [bytesperclust]
    ring
  obtain ⟨pad,whole,written⟩ := @set_sectors_put g d (clust_to_sect g cur) ((m+1)*g.clust_size) (buffer.take (size%2^32)) run.sectors
    (by omega)
  rw [length] at whole
  obtain ⟨same,others,keeps⟩ := @Run.put g cur m rest run d 0 (buffer.take (size%2^32) ++ pad) (by
    rw [length_append,length]
    omega)
  refine ⟨_,written,put_fat _ _ _,?_,?_,others⟩
  · exact keeps
  · have place : clust_to_sect g cur*g.sect_size = clust_at g cur+0 := rfl
    rw [place,same,overlay,take_zero,nil_append,append_assoc,take_append_of_le_length (by omega),
      Nat.mod_eq_of_lt small,take_take,min_self]

theorem allocate_last {d : Disk} (run : Run g cur m rest) {filesize : ℕ} (fits : filesize ≤ (m+1)*bytesperclust g)
    (small : filesize < 2^32) (rounds start gotsize : ℕ) (length : buffer.length = filesize) :
    ∃ d', allocate g start (rounds+1) d cur (cur+m) ((m+1)*bytesperclust g) filesize gotsize buffer = some ⟨0,d',start,gotsize+filesize⟩ ∧
      Linked g.fatsize d'.fat [cur+m] ∧ (∀ c, c ∉ [cur+m] → d'.fat c = d.fat c) ∧ Keeps g (range' cur (m+1)) d d' ∧
      (contents g d' (range' cur (m+1))).take filesize = buffer := by
  obtain ⟨d',written,fatIs,keeps,same,-⟩ := @set_cluster_run g d cur m filesize rest run buffer fits (by omega) small
  refine ⟨d'.link (update d.fat (cur+m) g.fatsize.mark),?_,?_,?_,?_,?_⟩
  · rw [allocate,if_neg (by omega),written]
    simp only [fatIs,set_value le_rfl]
    rfl
  · simpa [Linked,IS_LAST_CLUST] using last_le_mark
  · intro c other
    rw [link_fat]
    exact update_of_ne (fun here => other (by simp [here])) _ _
  · simpa using keeps.trans (link_keeps d' (update d.fat (cur+m) g.fatsize.mark) [])
  · rw [link_contents,same,take_of_length_le (by omega)]

/-- The loops write a buffer to a run and the free clusters behind it, and link them. -/
theorem allocate_chain {d : Disk} {cur m : ℕ} {frees : List ℕ} (low : 2 ≤ cur) (high : cur+m < g.max_clust)
    (free : free_clusters d.fat (cur+m+1) g.max_clust = frees) {filesize : ℕ} (more : m*bytesperclust g < filesize)
    (fits : filesize ≤ (m+1+frees.length)*bytesperclust g) (small : filesize < 2^32) {rounds : ℕ}
    (enough : filesize ≤ (m+rounds)*bytesperclust g) (start gotsize : ℕ) {buffer : List UInt8} (length : buffer.length = filesize) :
    ∃ d' k, allocate g start rounds d cur (cur+m) ((m+1)*bytesperclust g) filesize gotsize buffer =
        some ⟨0,d',start,gotsize+filesize⟩ ∧
      k ≤ frees.length ∧ filesize ≤ (m+1+k)*bytesperclust g ∧ Linked g.fatsize d'.fat ((cur+m) :: frees.take k) ∧
      (∀ c, c ∉ (cur+m) :: frees.take k → d'.fat c = d.fat c) ∧ Keeps g (range' cur (m+1) ++ frees.take k) d d' ∧
      (contents g d' (range' cur (m+1) ++ frees.take k)).take filesize = buffer := by
  set held := (m+1)*bytesperclust g
  induction frees generalizing d cur m filesize rounds gotsize buffer with
  | nil =>
    obtain ⟨rounds,rfl⟩ : ∃ k, rounds = k+1 := some_round more enough
    rw [length_nil,add_zero] at fits
    obtain ⟨d',done,linked,fatIs,keeps,same⟩ := allocate_last (run_free low high free) fits small rounds start gotsize length
    exact ⟨d',0,done,le_rfl,fits,linked,fatIs,by simpa using keeps,by simpa using same⟩
  | cons e rest ih =>
    obtain ⟨rounds,rfl⟩ : ∃ k, rounds = k+1 := some_round more enough
    have run := run_free low high free
    by_cases further : held < filesize
    · obtain ⟨found,free_rest⟩ := next_free_cons free (show 2 ≤ cur+m+1 by omega) g.numbers
      have inside := run.inside e (by simp)
      have above : cur+m+1 ≤ e := (mem_free.mp (free ▸ mem_cons_self)).1
      have determined : determine_fatent g.fatsize d.fat (cur+m) = (e,update d.fat (cur+m) e) := by
        rw [determine_fatent,found,set_value inside.number.le_mark]
      have free_after : free_clusters (update d.fat (cur+m) e) (e+1) g.max_clust = rest := by
        rw [← free_rest]
        exact free_congr (fun c large => update_of_ne (by omega) _ _)
      have behind : ∀ c ∈ rest, e < c := by
        intro c member
        have := (mem_free.mp (free_rest ▸ member)).1
        omega
      -- The link from the end of the run stays as it is set here.
      have linked_by {fat : Table} {k : ℕ} (linked : Linked g.fatsize fat (e :: rest.take k))
          (others : ∀ c, c ∉ e :: rest.take k → fat c = update d.fat (cur+m) e c) :
          Linked g.fatsize fat ((cur+m) :: (e :: rest).take (k+1)) ∧ ∀ c, c ∉ (cur+m) :: (e :: rest).take (k+1) → fat c = d.fat c := by
        have absent : cur+m ∉ e :: rest.take k := by
          intro member
          rcases mem_cons.mp member with same | later
          · omega
          · have := behind _ (mem_of_mem_take later)
            omega
        refine ⟨⟨?_,linked⟩,fun c other => ?_⟩
        · rw [others _ absent,update_self]
        · rw [take_succ_cons,mem_cons,not_or] at other
          rw [others c other.2,update_of_ne other.1]
      by_cases consecutive : e = cur+m+1
      · subst consecutive
        obtain ⟨d',k,done,few,filled,linked,fatIs,keeps,same⟩ := @ih (d.link (update d.fat (cur+m) (cur+m+1))) cur (m+1) low inside.2
          free_after filesize further (by
            rw [length_cons] at fits
            have : m+1+(rest.length+1) = m+1+1+rest.length := by omega
            rwa [this] at fits) small rounds (by
            have : m+(rounds+1) = m+1+rounds := by omega
            rwa [this] at enough) gotsize buffer length
        have longer : range' cur (m+1+1) ++ rest.take k = range' cur (m+1) ++ (cur+m+1) :: rest.take k := by
          rw [range'_concat,one_mul,append_assoc]
          rfl
        rw [longer] at keeps same
        obtain ⟨all_linked,others⟩ := linked_by linked fatIs
        refine ⟨d',k+1,?_,by simpa using few,?_,all_linked,others,?_,by simpa using same⟩
        · have bytes : (m+1+1)*bytesperclust g = held+bytesperclust g := by ring
          rw [← done,allocate,if_pos further,determined,bytes]
          simp only
          rw [if_neg (by simp),if_neg inside.number.valid]
          rfl
        · have : m+1+(k+1) = m+1+1+k := by omega
          rwa [this]
        · exact keeps
      obtain ⟨d1,written,fat1,keeps1,same1,-⟩ := @set_cluster_run g (d.link (update d.fat (cur+m) e)) cur m
        held (e :: rest) run buffer le_rfl (by omega) (by omega)
      obtain ⟨d',k,done,few,filled,linked,fatIs,keeps,same⟩ := @ih d1 e 0 inside.1 inside.2 (by rw [fat1]; exact free_after)
        (filesize-held) (by omega) (by
          rw [length_cons] at fits
          have : (m+1+(rest.length+1))*bytesperclust g = held+(0+1+rest.length)*bytesperclust g := by ring
          omega) (by omega) rounds (by
          have : (m+(rounds+1))*bytesperclust g = held+(0+rounds)*bytesperclust g := by ring
          omega) (gotsize+held) (buffer.drop held) (by rw [length_drop]; omega)
      simp only [add_zero,zero_add,one_mul,range'_one,singleton_append] at done keeps same linked fatIs
      rw [fat1] at fatIs
      obtain ⟨all_linked,others⟩ := linked_by linked fatIs
      have apart : (range' cur (m+1)).Disjoint (e :: rest.take k) := by
        intro c first second
        refine run.apart.symm first ?_
        rcases mem_cons.mp second with here | later
        · rw [here]
          exact mem_cons_self
        · exact mem_cons_of_mem _ (mem_of_mem_take later)
      have runIs : contents g d' (range' cur (m+1)) = buffer.take held := by
        rw [contents_keeps keeps apart (fun c member => (run.inside c (mem_append_left _ member)).1) ?_,← same1,
          take_of_length_le (by rw [contents_length,length_range'])]
        intro c member
        rcases mem_cons.mp member with here | later
        · rw [here]
          exact inside.1
        · have := behind c (mem_of_mem_take later)
          omega
      refine ⟨d',k+1,?_,by simpa using few,?_,all_linked,others,?_,?_⟩
      · rw [allocate,if_pos further,determined]
        simp only
        rw [if_pos consecutive]
        have step : set_cluster g { d with fat := update d.fat (cur+m) e } cur buffer held = (true,d1) := written
        rw [step]
        simp only [if_neg inside.number.valid]
        rw [done]
        congr 2
        omega
      · have : (m+1+(k+1))*bytesperclust g = held+(0+1+k)*bytesperclust g := by ring
        omega
      · have first := (link_keeps d (update d.fat (cur+m) e) []).trans keeps1
        exact first.trans keeps
      · have length1 : (contents g d' (range' cur (m+1))).length = held := by
          rw [contents_length,length_range']
        have whole : (contents g d' (range' cur (m+1))).take filesize = contents g d' (range' cur (m+1)) :=
          take_of_length_le (by omega)
        rw [take_succ_cons,contents_append,take_append,whole,length1,same,runIs,take_append_drop]
    · obtain ⟨d',done,linked,fatIs,keeps,same⟩ := allocate_last run (by omega) small rounds start gotsize length
      exact ⟨d',0,done,Nat.zero_le _,by simpa using further,linked,fatIs,by simpa using keeps,by simpa using same⟩

end allocating

/-! ## Files -/

theorem set_position_chain {d : Disk} {pos c : ℕ} {rest : List ℕ} (linked : Linked g.fatsize d.fat (c :: rest))
    (inside : ∀ x ∈ c :: rest, Inside g x) {done : ℕ} (before : pos ≤ done+(rest.length+1)*bytesperclust g) {rounds : ℕ}
    (enough : pos ≤ done+(rounds+1)*bytesperclust g) :
    ∃ front e back, c :: rest = front ++ e :: back ∧
      set_position g d pos (rounds+1) c (done+bytesperclust g) =
        some (some (e,done+front.length*bytesperclust g+bytesperclust g)) ∧
      pos ≤ done+front.length*bytesperclust g+bytesperclust g ∧ (front ≠ [] → done+front.length*bytesperclust g < pos) := by
  induction rest generalizing c done rounds with
  | nil =>
    simp only [length_nil,zero_add,one_mul] at before
    refine ⟨[],c,[],rfl,?_,by simpa using before,by simp⟩
    rw [set_position,if_pos before]
    simp
  | cons e rest ih =>
    have number := (inside c mem_cons_self).number
    rw [set_position]
    by_cases here : pos ≤ done+bytesperclust g
    · refine ⟨[],c,e :: rest,rfl,?_,by simpa using here,by simp⟩
      rw [if_pos here]
      simp
    have next : get_fatent g.fatsize d.fat c = e := by
      rw [get_number number]
      exact linked.1
    have valid := (inside e (by simp)).number.valid
    obtain ⟨k,rfl⟩ := Nat.exists_eq_add_one_of_ne_zero (show rounds ≠ 0 by rintro rfl; omega)
    obtain ⟨front,x,back,split,walked,low,high⟩ := @ih e linked.2 (fun y member => inside y (mem_cons_of_mem _ member))
      (done+bytesperclust g) (by
        simp only [length_cons] at before
        have : (rest.length+1+1)*bytesperclust g = bytesperclust g+(rest.length+1)*bytesperclust g := by ring
        omega) k (by
        have : (k+1+1)*bytesperclust g = bytesperclust g+(k+1)*bytesperclust g := by ring
        omega)
    have size : (c :: front).length*bytesperclust g = bytesperclust g+front.length*bytesperclust g := by
      rw [length_cons]
      ring
    refine ⟨c :: front,x,back,by rw [split]; rfl,?_,by omega,fun _ => ?_⟩
    · rw [if_neg here,if_neg number.not_last]
      simp only [next,valid,and_false,if_false]
      rw [walked,size]
      congr 4
      omega
    · rw [size]
      by_cases first : front = []
      · rw [first,length_nil,zero_mul]
        omega
      · have := high first
        omega

/-- What a write makes of a file: the chain `chain'` holds `bytes`, its clusters were free or the
    file's own, and nothing else has changed. -/
structure Rewritten (g : Fsdata) (d d' : Disk) (chain chain' : List ℕ) (bytes : List UInt8) : Prop where
  linked : Linked g.fatsize d'.fat chain'
  inside : ∀ c ∈ chain', Inside g c
  once : chain'.Nodup
  filled : bytes.length ≤ chain'.length*bytesperclust g
  holds : (contents g d' chain').take bytes.length = bytes
  fresh : ∀ c ∈ chain', c ∈ chain ∨ d.fat c = 0
  table : ∀ c, c ∉ chain → c ∉ chain' → d'.fat c = d.fat c
  keeps : Keeps g (chain ++ chain') d d'

/-- The clusters behind the chain that the search for a free one goes through. -/
def search_start (chain : List ℕ) : ℕ := if chain = [] then 3 else chain.getLastD 0+1

/-- The chain and the free clusters that the search finds in the volume hold the bytes. -/
def Enough (g : Fsdata) (fat : Table) (chain : List ℕ) (size : ℕ) : Prop :=
  size ≤ (chain.length+(free_clusters fat (search_start chain) g.max_clust).length)*bytesperclust g

instance (fat : Table) (chain : List ℕ) (size : ℕ) : Decidable (Enough g fat chain size) := inferInstanceAs (Decidable (_ ≤ _))

theorem chain_start (fatsize : FatSize) (chain : List ℕ) :
    chain.head? = some (chain.headD 0) ∨ chain = [] ∧ CHECK_CLUST (chain.headD 0) fatsize := by
  cases chain with
  | nil => exact .inr ⟨rfl,.inl (Nat.zero_le 1)⟩
  | cons c rest => exact .inl rfl

theorem release_chain {d : Disk} {chain : List ℕ} (linked : Linked g.fatsize d.fat chain) (inside : ∀ c ∈ chain, Inside g c)
    (once : chain.Nodup) : Rewritten g d (d.link (clear_fatent g.fatsize d.fat (chain.headD 0))) chain [] [] := by
  have numbers : ∀ c ∈ chain, Number g.fatsize c := fun c member => (inside c member).number
  have cleared := clear_chain linked once numbers (chain_short once numbers) (chain.headD 0) (chain_start _ _)
  refine ⟨trivial,by simp,by simp,by simp,rfl,by simp,fun c other _ => ?_,link_keeps _ _ _⟩
  rw [link_fat,clear_fatent,cleared]
  exact if_neg other

theorem truncate_chain {d : Disk} {front back : List ℕ} {e : ℕ} (linked : Linked g.fatsize d.fat (front ++ e :: back))
    (inside : ∀ c ∈ front ++ e :: back, Inside g c) (once : (front ++ e :: back).Nodup) :
    Linked g.fatsize (truncate g d e).fat (front ++ [e]) ∧ (∀ c, c ∉ front ++ e :: back → (truncate g d e).fat c = d.fat c) ∧
      (truncate g d e).bytes = d.bytes := by
  have here := inside e (by simp)
  obtain ⟨fronts,backs,apart⟩ := nodup_append.mp once
  obtain ⟨fresh,backs⟩ := nodup_cons.mp backs
  have absent : e ∉ front := fun member => apart e member e mem_cons_self rfl
  unfold truncate
  simp only [get_number here.number]
  cases back with
  | nil =>
    have last : IS_LAST_CLUST (d.fat e) g.fatsize := linked_drop linked
    rw [if_pos last]
    exact ⟨linked,fun _ _ => rfl,rfl⟩
  | cons x back =>
    have next := linked_next linked
    have number := (inside x (by simp)).number
    have numbers : ∀ c ∈ x :: back, Number g.fatsize c := fun c member => (inside c (by simp at member ⊢; tauto)).number
    have cleared := clear_chain (linked_tail (linked_drop linked)) backs numbers (chain_short backs numbers) x (.inl rfl)
    have marked : set_fatent_value g.fatsize (clear_fatent g.fatsize d.fat x) e g.fatsize.mark =
        update (fun c => if c ∈ x :: back then 0 else d.fat c) e g.fatsize.mark := by
      rw [set_value le_rfl,clear_fatent,cleared]
    rw [next,if_neg number.not_last]
    simp only [marked]
    refine ⟨?_,fun c other => ?_,trivial⟩
    · refine linked_congr (fun c member => ?_) (linked_cut linked absent last_le_mark)
      by_cases same : c = e
      · rw [same,update_self,update_self]
      · rw [update_of_ne same,update_of_ne same,if_neg]
        intro later
        have first : c ∈ front := by simpa [same] using member
        exact apart c first c (mem_cons_of_mem _ later) rfl
    · have not_end : c ≠ e := fun same => other (by simp [same])
      rw [update_of_ne not_end,if_neg]
      intro later
      exact other (by simp at later ⊢; tauto)

theorem found_free {fat : Table} {low c : ℕ} (start : 2 ≤ low)
    (free : free_clusters fat low g.max_clust = c :: rest) (k : ℕ) :
    (∀ x ∈ c :: rest.take k, Inside g x ∧ fat x = 0 ∧ low ≤ x) ∧ (c :: rest.take k).Nodup := by
  have part : (c :: rest.take k).Sublist (free_clusters fat low g.max_clust) := by
    rw [free]
    exact (take_sublist k rest).cons_cons c
  refine ⟨fun x member => ?_,(free_nodup low g.max_clust).sublist part⟩
  have := mem_free.mp (part.subset member)
  exact ⟨⟨by omega,this.2.1⟩,this.2.2,this.1⟩

theorem set_clusters_new {d : Disk} (some_bytes : buffer ≠ []) (small : buffer.length < 2^32)
    (enough : Enough g d.fat [] buffer.length) :
    ∃ w, set_clusters g d 0 0 buffer.length 0 buffer = some w ∧ (w.ret = 0 →
      ∃ chain', w.start = chain'.headD 0 ∧ w.gotsize = buffer.length ∧ Rewritten g d w.disk [] chain' buffer) := by
  have positive := @bytes_pos g
  have bytes := length_pos_iff.mpr some_bytes
  unfold Enough search_start at enough
  simp only [if_true,length_nil,zero_add] at enough
  cases free : free_clusters d.fat 3 g.max_clust with
  | nil =>
    rw [free,length_nil,zero_mul] at enough
    omega
  | cons c rest =>
    rw [free,length_cons] at enough
    obtain ⟨found,free_rest⟩ := next_free_cons free (show 2 ≤ 3 by omega) g.numbers
    have inside := ((found_free (show 2 ≤ 3 by omega) free 0).1 c (by simp)).1
    unfold set_clusters set_new_clusters
    simp only [if_true,find_empty_cluster,found]
    by_cases overflow : check_overflow g c buffer.length = true
    · refine ⟨⟨-1,d,c,0⟩,by rw [if_pos overflow],fun impossible => ?_⟩
      exact absurd impossible (by simp)
    rw [if_neg overflow]
    obtain ⟨d',k,done,few,filled,linked,fatIs,keeps,same⟩ := @allocate_chain g d c 0 rest inside.1 inside.2 free_rest buffer.length
      (by omega) (by
        have : (0+1+rest.length)*bytesperclust g = (rest.length+1)*bytesperclust g := by ring
        omega) small (buffer.length+1) (by
        have : (buffer.length+1)*1 ≤ (buffer.length+1)*bytesperclust g := Nat.mul_le_mul_left _ positive
        rw [zero_add]
        omega) c 0 buffer rfl
    simp only [add_zero,zero_add,one_mul,range'_one,singleton_append] at done linked keeps same fatIs
    obtain ⟨clusters,once⟩ := found_free (show 2 ≤ 3 by omega) free k
    refine ⟨_,done,fun _ => ⟨c :: rest.take k,rfl,by simp,?_⟩⟩
    refine ⟨linked,fun x member => (clusters x member).1,once,?_,same,fun x member => .inr (clusters x member).2.1,
      fun x _ other => fatIs x other,by simpa using keeps⟩
    rw [length_cons,length_take,min_eq_left few]
    have : (0+1+k)*bytesperclust g = (k+1)*bytesperclust g := by ring
    omega

theorem getLastD_concat (front : List ℕ) (e : ℕ) : (front ++ [e]).getLastD 0 = e := by
  simp

/-- A chain that is full goes on in free clusters. -/
theorem set_clusters_append {d : Disk} {front : List ℕ} {e : ℕ} (linked : Linked g.fatsize d.fat (front ++ [e]))
    (inside : ∀ c ∈ front ++ [e], Inside g c) (once : (front ++ [e]).Nodup) (some_bytes : buffer ≠ [])
    (small : buffer.length < 2^32)
    (enough : buffer.length ≤ (free_clusters d.fat (e+1) g.max_clust).length*bytesperclust g) (start gotsize : ℕ) :
    ∃ w, set_clusters g d start e buffer.length gotsize buffer = some w ∧ (w.ret = 0 →
      w.start = start ∧ w.gotsize = gotsize+buffer.length ∧
      ∃ new, (∀ c ∈ new, Inside g c ∧ d.fat c = 0) ∧ (front ++ e :: new).Nodup ∧ Linked g.fatsize w.disk.fat (front ++ e :: new) ∧
        buffer.length ≤ new.length*bytesperclust g ∧ (contents g w.disk new).take buffer.length = buffer ∧
        (∀ c, c ∉ e :: new → w.disk.fat c = d.fat c) ∧ Keeps g new d w.disk) := by
  have positive := @bytes_pos g
  have bytes := length_pos_iff.mpr some_bytes
  have here := inside e (by simp)
  have last : IS_LAST_CLUST (get_fatent g.fatsize d.fat e) g.fatsize := by
    rw [get_number here.number]
    exact linked_drop linked
  have nonzero : e ≠ 0 := by
    have := here.1
    omega
  have low : 2 ≤ e+1 := by
    have := here.1
    omega
  cases free : free_clusters d.fat (e+1) g.max_clust with
  | nil =>
    rw [free,length_nil,zero_mul] at enough
    omega
  | cons c rest =>
    rw [free,length_cons] at enough
    obtain ⟨found,free_rest⟩ := next_free_cons free low g.numbers
    have first := (found_free low free 0).1 c (by simp)
    have determined : determine_fatent g.fatsize d.fat e = (c,update d.fat e c) := by
      rw [determine_fatent,found,set_value first.1.number.le_mark]
    have again : set_fatent_value g.fatsize (update d.fat e c) e c = update d.fat e c := by
      rw [set_value first.1.number.le_mark,update_idem]
    unfold set_clusters set_new_clusters
    rw [if_neg nonzero]
    simp only [if_pos last,determined,again]
    by_cases overflow : check_overflow g c buffer.length = true
    · refine ⟨⟨-1,d.link (update d.fat e c),start,gotsize⟩,by rw [if_pos overflow]; rfl,fun impossible => ?_⟩
      exact absurd impossible (by simp)
    rw [if_neg overflow]
    have free_after : free_clusters (update d.fat e c) (c+1) g.max_clust = rest := by
      rw [← free_rest]
      refine free_congr (fun x large => update_of_ne ?_ _ _)
      have := first.2.2
      omega
    obtain ⟨d',k,done,few,filled,newly,fatIs,keeps,same⟩ := @allocate_chain g (d.link (update d.fat e c)) c 0 rest first.1.1 first.1.2
      free_after buffer.length (by omega) (by
        have : (0+1+rest.length)*bytesperclust g = (rest.length+1)*bytesperclust g := by ring
        omega) small (buffer.length+1) (by
        have : (buffer.length+1)*1 ≤ (buffer.length+1)*bytesperclust g := Nat.mul_le_mul_left _ positive
        rw [zero_add]
        omega) start gotsize buffer rfl
    simp only [add_zero,zero_add,one_mul,range'_one,singleton_append,link_fat] at done newly keeps same fatIs
    obtain ⟨clusters,news⟩ := found_free low free k
    have used := linked_used linked fun x member => (inside x member).number
    have apart : ∀ x ∈ front ++ [e], x ∉ c :: rest.take k := fun x member new => used x member (clusters x new).2.1
    refine ⟨_,done,fun _ => ⟨rfl,rfl,c :: rest.take k,fun x member => ⟨(clusters x member).1,(clusters x member).2.1⟩,?_,?_,?_,same,?_,?_⟩⟩
    · have split : front ++ e :: c :: rest.take k = (front ++ [e]) ++ c :: rest.take k := by simp
      rw [split,nodup_append]
      exact ⟨once,news,fun a one b two equal => apart a one (equal ▸ two)⟩
    · refine linked_extend linked (fun x member => ?_) ?_ newly
      · have other : x ≠ e := fun equal => (nodup_append.mp once).2.2 x member e (by simp) equal
        rw [fatIs x (apart x (by simp [member])),update_of_ne other]
      · rw [fatIs e (apart e (by simp)),update_self]
    · rw [length_cons,length_take,min_eq_left few]
      have : (0+1+k)*bytesperclust g = (k+1)*bytesperclust g := by ring
      omega
    · intro x other
      rw [mem_cons,not_or] at other
      rw [fatIs x other.2,update_of_ne other.1]
    · have all := (link_keeps d (update d.fat e c) []).trans keeps
      simpa using all

theorem overlay_right (behind : front.length ≤ off) :
    overlay (front ++ back) off new = front ++ overlay back (off-front.length) new := by
  have shift : off+new.length-front.length = off-front.length+new.length := by omega
  unfold overlay
  rw [take_append,take_of_length_le behind,drop_append,drop_eq_nil_of_le (show front.length ≤ off+new.length by omega),
    shift]
  simp

section file
variable {d : Disk} {chain : List ℕ} (linked : Linked g.fatsize d.fat chain) (inside : ∀ c ∈ chain, Inside g c) (once : chain.Nodup)
  {pos : ℕ} (within : pos ≤ chain.length*bytesperclust g) {buffer : List UInt8}
include linked inside once within

/-- The part of a write that goes to the clusters of the file. -/
theorem set_contents_overwrites (some_chain : chain ≠ []) (some_bytes : 0 < pos+buffer.length) :
    ∃ d', d'.fat = d.fat ∧ Keeps g chain d d' ∧
      contents g d' chain = overlay (contents g d chain) pos (buffer.take (chain.length*bytesperclust g-pos)) ∧
      ((pos+buffer.length ≤ chain.length*bytesperclust g ∧ ∃ front e back, chain = front ++ e :: back ∧
          pos+buffer.length ≤ (front.length+1)*bytesperclust g ∧
          set_contents g d (chain.headD 0) pos buffer = some ⟨0,truncate g d' e,chain.headD 0,buffer.length⟩) ∨
      (chain.length*bytesperclust g < pos+buffer.length ∧ ∃ front e, chain = front ++ [e] ∧
          set_contents g d (chain.headD 0) pos buffer = set_clusters g d' (chain.headD 0) e (pos+buffer.length-chain.length*bytesperclust g)
            (chain.length*bytesperclust g-pos) (buffer.drop (chain.length*bytesperclust g-pos)))) := by
  have positive := @bytes_pos g
  cases chain with
  | nil => exact absurd rfl some_chain
  | cons c rest =>
    have first := inside c mem_cons_self
    have start : c ≠ 0 := by
      have := first.1
      omega
    rw [length_cons] at within ⊢
    obtain ⟨front,e,back,split,walked,low,high⟩ := @set_position_chain g d pos c rest linked inside 0 (by omega) pos (by
      have : (pos+1)*1 ≤ (pos+1)*bytesperclust g := Nat.mul_le_mul_left _ positive
      omega)
    simp only [zero_add] at walked low high
    have cur_pos : front.length*bytesperclust g ≤ pos := by
      by_cases empty : front = []
      · simp [empty]
      · exact le_of_lt (high empty)
    have before : front.length*bytesperclust g < pos+buffer.length := by
      by_cases empty : front = []
      · simpa [empty] using some_bytes
      · have := high empty
        omega
    have length : (rest.length+1)*bytesperclust g = front.length*bytesperclust g+(0+1+back.length)*bytesperclust g := by
      have same := congrArg List.length split
      rw [length_cons,length_append,length_cons] at same
      rw [same]
      ring
    have inside_split : ∀ x ∈ front ++ e :: back, Inside g x := by
      rw [← split]
      exact inside
    have linked_split : Linked g.fatsize d.fat (front ++ e :: back) := by
      rw [← split]
      exact linked
    have once_split : (front ++ e :: back).Nodup := by
      rw [← split]
      exact once
    have run : Run g e 0 back :=
      ⟨fun x member => inside_split x (mem_append_right _ (by simpa using member)),by
        simpa using (nodup_append.mp once_split).2.1⟩
    obtain ⟨d',fatIs,keeps,restIs,outcome⟩ := @overwrite_chain g pos (pos+buffer.length) d e 0 back (linked_drop linked_split) run
      _ _ _ (front.length*bytesperclust g) rfl rfl rfl (by omega) (by omega) (by omega) (pos+buffer.length+2) (by
        have : (pos+buffer.length+2)*1 ≤ (pos+buffer.length+2)*bytesperclust g := Nat.mul_le_mul_left _ positive
        rw [zero_add]
        omega) 0 0 buffer (by omega)
    simp only [add_zero,zero_add,one_mul,range'_one,singleton_append] at keeps restIs outcome
    rw [zero_add] at length
    have left : (1+back.length)*bytesperclust g-(pos-front.length*bytesperclust g) = (rest.length+1)*bytesperclust g-pos := by omega
    rw [left] at restIs outcome
    have frontIs : contents g d' front = contents g d front := by
      refine contents_keeps keeps (disjoint_of_nodup_append once_split) ?_ ?_
      · exact fun x member => (inside_split x (mem_append_left _ member)).1
      · exact fun x member => (inside_split x (mem_append_right _ member)).1
    have reached : set_contents g d c pos buffer = overwritten g c (pos+buffer.length)
        (overwrite g pos (pos+buffer.length) (pos+buffer.length+2) d e e 0 (bytesperclust g) (front.length*bytesperclust g) 0 buffer) := by
      unfold set_contents
      simp only [if_neg (show ¬ pos+buffer.length = 0 by omega),if_neg start,walked,Nat.add_sub_cancel,
        if_neg (inside_split e (by simp)).number.not_last]
    simp only [headD_cons]
    refine ⟨d',fatIs,?_,?_,?_⟩
    · rw [split]
      exact keeps.mono (subset_append_right _ _)
    · rw [split,contents_append,frontIs,restIs,contents_append,overlay_right (by rw [contents_length]; exact cur_pos),contents_length]
    · rcases outcome with ⟨short,front',x,back',parts,-,ends,done⟩ | ⟨long,front',x,parts,full⟩
      · refine .inl ⟨by omega,front ++ front',x,back',by rw [split,parts,append_assoc],?_,?_⟩
        · rw [length_append,add_assoc,add_mul]
          exact ends
        · rw [reached,done,overwritten]
      · refine .inr ⟨by omega,front ++ front',x,by rw [split,parts,append_assoc],?_⟩
        rw [reached,full,overwritten,length]

/-- A write leaves the old contents up to the position and then the buffer, unless the search for
    free clusters leaves the volume. -/
theorem set_contents_chain (small : pos+buffer.length < 2^32) (enough : Enough g d.fat chain (pos+buffer.length)) :
    ∃ w, set_contents g d (chain.headD 0) pos buffer = some w ∧ (w.ret = 0 →
      ∃ chain', w.start = chain'.headD 0 ∧ w.gotsize = buffer.length ∧
        Rewritten g d w.disk chain chain' ((contents g d chain).take pos ++ buffer)) := by
  have positive := @bytes_pos g
  have total : (contents g d chain).length = chain.length*bytesperclust g := contents_length d chain
  have bytes : ((contents g d chain).take pos ++ buffer).length = pos+buffer.length := by
    rw [length_append,length_take]
    omega
  by_cases nothing : pos+buffer.length = 0
  · obtain rfl : pos = 0 := by omega
    obtain rfl : buffer = [] := length_eq_zero_iff.mp (by omega)
    simp only [take_zero,append_nil,length_nil]
    by_cases none_ : chain = []
    · refine ⟨⟨0,d,0,0⟩,by simp [set_contents,none_],fun _ => ⟨[],rfl,rfl,?_⟩⟩
      rw [none_]
      exact ⟨trivial,by simp,by simp,by simp,rfl,by simp,fun _ _ _ => rfl,fun _ _ => rfl⟩
    have first : Inside g (chain.headD 0) := by
      cases chain with
      | nil => exact absurd rfl none_
      | cons c rest => exact inside c mem_cons_self
    have start : chain.headD 0 ≠ 0 := by
      have := first.1
      omega
    refine ⟨⟨0,d.link (clear_fatent g.fatsize d.fat (chain.headD 0)),0,0⟩,?_,fun _ => ⟨[],rfl,rfl,release_chain linked inside once⟩⟩
    simp only [set_contents,length_nil,add_zero,if_true,if_neg start,if_pos (Or.inl first.number.valid)]
    rfl
  by_cases none_ : chain = []
  · subst none_
    obtain rfl : pos = 0 := by simpa using within
    simp only [zero_add] at nothing small enough bytes ⊢
    have some_bytes : buffer ≠ [] := fun empty => nothing (by simp [empty])
    obtain ⟨w,written,spec⟩ := set_clusters_new some_bytes small enough
    refine ⟨w,?_,by simpa [contents] using spec⟩
    rw [← written]
    simp only [set_contents,zero_add,if_neg nothing,headD_nil,if_true]
  obtain ⟨d',fatIs,keeps,changed,outcome⟩ := @set_contents_overwrites g d chain linked inside once pos within buffer none_ (by omega)
  rcases outcome with ⟨short,front,e,back,split,ends,done⟩ | ⟨long,front,e,split,full⟩
  · refine ⟨_,done,fun _ => ⟨front ++ [e],?_,rfl,?_⟩⟩
    · rw [split]
      cases front <;> rfl
    have ended : contents g d' chain = (contents g d chain).take pos ++ buffer ++ (contents g d chain).drop (pos+buffer.length) := by
      rw [changed,overlay,take_of_length_le (show buffer.length ≤ chain.length*bytesperclust g-pos by omega)]
    subst split
    have linked' : Linked g.fatsize d'.fat (front ++ e :: back) := by
      rw [fatIs]
      exact linked
    obtain ⟨cut,others,same⟩ := truncate_chain linked' inside once
    have part : (front ++ [e]).Sublist (front ++ e :: back) := by simp
    have length : (front ++ [e]).length = front.length+1 := by simp
    refine ⟨cut,fun c member => inside c (part.subset member),once.sublist part,by rw [bytes,length]; exact ends,?_,
      fun c member => .inl (part.subset member),fun c other _ => ?_,fun a outside => ?_⟩
    · have front_bytes : contents g (truncate g d' e) (front ++ [e]) = contents g d' (front ++ [e]) := contents_bytes same _
      have first : (contents g d' (front ++ [e])).take (pos+buffer.length) = (contents g d' (front ++ e :: back)).take (pos+buffer.length) := by
        have join : front ++ e :: back = (front ++ [e]) ++ back := by simp
        rw [join,contents_append d' (front ++ [e]),take_append_of_le_length (by rw [contents_length,length]; exact ends)]
      rw [bytes,front_bytes,first,ended,take_append_of_le_length (by omega),← bytes,take_length]
    · rw [others c other,fatIs]
    · rw [same,keeps a (fun c member => outside c (mem_append_left _ member))]
  have rest : buffer.drop (chain.length*bytesperclust g-pos) ≠ [] := by
    rw [ne_eq,drop_eq_nil_iff]
    omega
  have rest_length : (buffer.drop (chain.length*bytesperclust g-pos)).length = pos+buffer.length-chain.length*bytesperclust g := by
    rw [length_drop]
    omega
  have ended : contents g d' chain = (contents g d chain).take pos ++ buffer.take (chain.length*bytesperclust g-pos) := by
    rw [changed,overlay,drop_eq_nil_of_le (by rw [total,length_take]; omega),append_nil]
  have covered : chain.length*bytesperclust g-pos ≤ buffer.length := by omega
  unfold Enough search_start at enough
  rw [if_neg none_] at enough
  subst split
  rw [getLastD_concat,add_mul] at enough
  have linked' : Linked g.fatsize d'.fat (front ++ [e]) := by
    rw [fatIs]
    exact linked
  obtain ⟨w,written,spec⟩ := set_clusters_append linked' inside once rest (by omega) (by rw [rest_length,fatIs]; omega)
    ((front ++ [e]).headD 0) ((front ++ [e]).length*bytesperclust g-pos)
  rw [rest_length] at written
  refine ⟨w,full.trans written,fun returned => ?_⟩
  obtain ⟨start,got,new,news,distinct,all_linked,filled,held,others,kept⟩ := spec returned
  rw [fatIs] at news others
  have join : front ++ e :: new = (front ++ [e]) ++ new := by simp
  have used := linked_used linked fun x member => (inside x member).number
  have apart : (front ++ [e]).Disjoint new := fun c one two => used c one (news c two).2
  have all_got : w.gotsize = buffer.length := by
    rw [got,length_drop]
    exact Nat.add_sub_cancel' covered
  refine ⟨front ++ e :: new,?_,all_got,all_linked,?_,distinct,?_,?_,?_,?_,?_⟩
  · rw [start]
    cases front <;> rfl
  · intro c member
    rw [join] at member
    rcases mem_append.mp member with old | added
    · exact inside c old
    · exact (news c added).1
  · rw [bytes,join,length_append,add_mul]
    omega
  · have old_bytes : contents g w.disk (front ++ [e]) = contents g d' (front ++ [e]) :=
      contents_keeps kept apart (fun c member => (inside c member).1) (fun c member => (news c member).1.1)
    have whole : (contents g w.disk (front ++ [e])).take (pos+buffer.length) = contents g w.disk (front ++ [e]) :=
      take_of_length_le (by rw [contents_length]; omega)
    rw [bytes,join,contents_append,take_append,whole,contents_length,← rest_length,held,old_bytes,ended,append_assoc,
      take_append_drop]
  · intro c member
    rw [join] at member
    rcases mem_append.mp member with old | added
    · exact .inl old
    · exact .inr (news c added).2
  · intro c old added
    refine others c (fun member => added ?_)
    simp only [mem_append,mem_cons] at member ⊢
    tauto
  · refine (keeps.trans kept).mono ?_
    intro c member
    simp only [mem_append,mem_cons,not_mem_nil,or_false] at member ⊢
    tauto

end file

/-! ## Volumes -/

structure File where
  chain : List ℕ
  size : ℕ

def File.start (f : File) : ℕ := f.chain.headD 0

/-- The files of a volume, directories among them, have chains in the volume with an end mark and
    no cluster in common, and these are long enough. -/
structure Consistent (g : Fsdata) (d : Disk) {ι : Type} (files : ι → File) : Prop where
  linked : ∀ i, Linked g.fatsize d.fat (files i).chain
  inside : ∀ i, ∀ c ∈ (files i).chain, Inside g c
  once : ∀ i, (files i).chain.Nodup
  apart : ∀ i j, i ≠ j → (files i).chain.Disjoint (files j).chain
  filled : ∀ i, (files i).size ≤ (files i).chain.length*bytesperclust g

/-- A write of `buffer` to a file at `pos`: it is all written, what is read of the file is the old
    contents up to `pos` and then the buffer, and the other files are read as before. -/
structure ReadsBack (g : Fsdata) (d : Disk) {ι : Type} (files : ι → File) (i : ι) (pos : ℕ) (buffer : List UInt8) (w : Written) :
    Prop where
  got : w.gotsize = buffer.length
  reads : ∃ old, get_contents g d (files i).start (files i).size 0 0 = some (some old) ∧
    ∀ place len, get_contents g w.disk w.start (pos+buffer.length) place len = some (some (slice (old.take pos ++ buffer) place len))
  others : ∀ j, j ≠ i → ∀ place len,
    get_contents g w.disk (files j).start (files j).size place len = get_contents g d (files j).start (files j).size place len

/-- A chain of another file is not changed by a write. -/
theorem Rewritten.other {d d' : Disk} {chain chain' : List ℕ} {bytes : List UInt8} (rewritten : Rewritten g d d' chain chain' bytes)
    {other : List ℕ} (linked : Linked g.fatsize d.fat other) (inside : ∀ c ∈ other, Inside g c) (apart : other.Disjoint chain)
    (own : ∀ c ∈ chain, Inside g c) : Linked g.fatsize d'.fat other ∧ contents g d' other = contents g d other := by
  have used := linked_used linked fun c member => (inside c member).number
  have away : ∀ c ∈ other, c ∉ chain' := by
    intro c member new
    rcases rewritten.fresh c new with old | free
    · exact apart member old
    · exact used c member free
  refine ⟨linked_congr (fun c member => rewritten.table c (apart member) (away c member)) linked,?_⟩
  refine contents_keeps rewritten.keeps ?_ (fun c member => (inside c member).1) ?_
  · intro c member changed
    rcases mem_append.mp changed with old | new
    · exact apart member old
    · exact away c member new
  · intro c changed
    rcases mem_append.mp changed with old | new
    · exact (own c old).1
    · exact (rewritten.inside c new).1

end

def small_volume : Fsdata :=
  ⟨.fat12,512,1,19,33,41,10,by decide,by decide,by decide,by decide⟩

/-- One file has the clusters 5 and 3, another one cluster 7. -/
def small_disk : Disk := ⟨fun c => if c = 5 then 3 else if c = 3 ∨ c = 7 then 0xfff else 0,fun _ => 0⟩

def small_files (i : Bool) : File := if i then ⟨[7],10⟩ else ⟨[5,3],600⟩

theorem small_consistent : Consistent small_volume small_disk small_files := by
  refine ⟨fun i => ?_,fun i c member => ?_,fun i => ?_,fun i j other => ?_,fun i => ?_⟩
  · cases i
    · refine ⟨rfl,?_⟩
      show IS_LAST_CLUST (small_disk.fat 3) .fat12
      decide
    · show IS_LAST_CLUST (small_disk.fat 7) .fat12
      decide
  · cases i <;> simp [small_files] at member
    · rcases member with rfl | rfl <;> exact ⟨by decide,by decide⟩
    · subst member
      exact ⟨by decide,by decide⟩
  · cases i <;> decide
  · cases i <;> cases j <;> first | exact absurd rfl other | simp [small_files]
  · cases i <;> decide

/-- The largest volume whose clusters all have numbers that are not taken for marks. -/
def full_volume : Fsdata :=
  ⟨.fat12,512,1,19,33,4111,0xff0,by decide,by decide,by decide,by decide⟩

def full_disk : Disk := ⟨fun c => if c = 2 then 4 else if c = 3 then 0 else if c < 0xfef then c+1 else 0xfff,fun _ => 0⟩

def full_files (i : Bool) : File := if i then ⟨2 :: List.range' 4 4076,4077*512⟩ else ⟨[],0⟩

theorem full_consistent : Consistent full_volume full_disk full_files := by
  have numbers : ∀ c ∈ 2 :: range' 4 4076, c = 2 ∨ 4 ≤ c ∧ c < 4080 := by
    intro c member
    rcases mem_cons.mp member with first | later
    · exact .inl first
    · exact .inr (mem_range'_1.mp later)
  refine ⟨fun i => ?_,fun i c member => ?_,fun i => ?_,fun i j other => ?_,fun i => ?_⟩
  · cases i
    · trivial
    · refine ⟨rfl,linked_range 4075 (fun c low high => ?_) (by decide)⟩
      show (if c = 2 then 4 else if c = 3 then 0 else if c < 0xfef then c+1 else 0xfff) = c+1
      rw [if_neg (by omega),if_neg (by omega),if_pos (by omega)]
  · cases i
    · cases member
    · have := numbers c member
      show 2 ≤ c ∧ c < 4080
      omega
  · cases i
    · exact nodup_nil
    · show (2 :: range' 4 4076).Nodup
      refine nodup_cons.mpr ⟨fun member => ?_,nodup_range'⟩
      have := mem_range'_1.mp member
      omega
  · cases i <;> cases j <;> first | exact absurd rfl other | simp [full_files]
  · cases i
    · exact Nat.zero_le _
    · have clusters : (full_files true).chain.length = 4077 := by simp [full_files]
      rw [clusters]
      exact le_refl (4077*512)

end UBoot.FatFile
