import UBoot.Bloblist

/-!
`bloblist_resize` of `common/bloblist.c`: the records behind the one that is
resized are moved by the difference of the two sizes, rounded up to 8, while the
walk rounds each size by itself. `Laid` says where the records of a list lie in
the memory; the walk over such a list reads exactly them, and a walk that reads
records with whole headers finds them laid out.
-/
namespace UBoot.BloblistResize
open UBoot.Memory UBoot.Words UBoot.Bloblist List Option

def ENOENT : Int := 2
def EINVAL : Int := 22

/-- `ALIGN(x, BLOBLIST_BLOB_ALIGN)` in 32 bits without sign. -/
def align_u32 (x : Int) : Nat := (((x+7)%2^32)/8*8).toNat

/-- The number of bytes to expand by, as the `int` that the source keeps. -/
def expand_by (b : Bloblist) (rec : Nat) (new_size : Int) : Int := wrap (align_u32 (new_size-rec_size b rec))

def new_alloced (b : Bloblist) (rec : Nat) (new_size : Int) : Nat :=
  align_u32 (b.used_size+expand_by b rec new_size)

/-- The memory with the following records moved up or down, if there are any.
    No value when they would go to a place before the first record, into the
    header of the list or out of its memory. -/
def move_following (b : Bloblist) (next_ofs : Nat) (expand_by : Int) : Option (Nat → UInt8) :=
  if next_ofs = b.used_size then some b.mem
  else if b.used_size < next_ofs ∨ next_ofs+expand_by < BLOBLIST_HDR_SIZE then none
  else some (memmove b.mem (next_ofs+expand_by).toNat next_ofs (b.used_size-next_ofs))

/-- The list once the new part of the blob is zero and the sizes are updated,
    over the memory in which the following records are moved. -/
def update_sizes (b : Bloblist) (rec : Nat) (new_size expand_by : Int) (new_alloced : Nat) (mem : Nat → UInt8) :
    Bloblist :=
  let moved := { b with mem := mem, used_size := new_alloced }
  let zeroed := if expand_by > 0 then
      store mem (rec+rec_hdr_size moved rec+rec_size moved rec)
        (List.replicate ((new_size-rec_size moved rec)%2^32).toNat 0)
    else mem
  { moved with mem := store zeroed (rec+4) (le32 new_size.toNat) }

def bloblist_resize_rec (b : Bloblist) (rec : Nat) (new_size : Int) : Option (Int × Bloblist) :=
  if new_size < 0 then some (-EINVAL,b)
  else if new_alloced b rec new_size > b.total_size then some (-ENOSPC,b)
  else
    (bloblist_blob_end_ofs b rec).bind fun next_ofs =>
      (move_following b next_ofs (expand_by b rec new_size)).map fun mem =>
        (0,update_sizes b rec new_size (expand_by b rec new_size) (new_alloced b rec new_size) mem)

def bloblist_resize (b : Bloblist) (tag : Nat) (new_size : Int) : Option (Int × Bloblist) :=
  (bloblist_findrec b tag).bind fun found =>
    found.elim (some (-ENOENT,b)) fun rec => bloblist_resize_rec b rec new_size

structure Record where
  head : Nat
  data : List UInt8
  deriving DecidableEq, Repr

def record_at (b : Bloblist) (rec : Nat) : Record :=
  ⟨tag_and_hdr_size b rec,load b.mem (rec+rec_hdr_size b rec) (rec_size b rec)⟩

def Reads (b : Bloblist) (recs : List Record) : Prop :=
  ∃ offs, Visits b (bloblist_first_blob b) offs ∧ offs.map (record_at b) = recs

/-- Data of a new size: what fits is kept, what is added is zero. -/
def resize_data (new_size : Nat) (data : List UInt8) : List UInt8 :=
  data.take new_size ++ List.replicate (new_size-data.length) 0

/-- The records with the first one that has the tag resized. -/
def resize_first (tag new_size : Nat) : List Record → List Record
  | [] => []
  | r :: rest =>
    if r.head%2^BLOBLISTR_HDR_SIZE_SHIFT = tag then ⟨r.head,resize_data new_size r.data⟩ :: rest
    else r :: resize_first tag new_size rest

/-- The call has a result; on success the walk reads the same records with only
    the one resized, and on an error the list is unchanged. -/
def Keeps (b : Bloblist) (tag new_size : Nat) : Prop :=
  ∃ ret after, bloblist_resize b tag new_size = some (ret,after) ∧
    (ret = 0 → ∃ recs, Reads b recs ∧ Reads after (resize_first tag new_size recs)) ∧ (ret ≠ 0 → after = b)

/-- The lists that are made and filled with the default alignment: each addition
    puts its record where the walk looks for it, and the data of a record that
    the walk reaches may be written. -/
inductive Built : Bloblist → Prop
  | new {addr size : Nat} {mem : Nat → UInt8} {b : Bloblist} (small : size < 2^32)
      (made : bloblist_new addr size 0 mem = .ok b) : Built b
  | add {b after : Bloblist} {tag size rec : Nat} (built : Built b) (int : size ≤ intMax) (fits : AddFits b tag size 0)
      (added : bloblist_addrec b tag size 0 = some ((0,rec),after)) : Built after
  | fill {b : Bloblist} {before behind : List Nat} {rec i : Nat} (built : Built b)
      (visits : Visits b (bloblist_first_blob b) (before ++ rec :: behind)) (inside : i < rec_size b rec) (byte : UInt8) :
      Built { b with mem := store b.mem (rec+8+i) [byte] }

def span (r : Record) : Nat := 8+roundUp r.data.length 8

def extent (recs : List Record) : Nat := (recs.map span).sum

@[simp] theorem extent_nil : extent [] = 0 := rfl
@[simp] theorem extent_cons (r : Record) (rest : List Record) : extent (r :: rest) = span r+extent rest := by
  simp [extent]
@[simp] theorem extent_append (first second : List Record) :
    extent (first ++ second) = extent first+extent second := by
  simp [extent]

theorem roundUp_eight (n : Nat) : roundUp n 8 = (n+7)/8*8 := rfl

theorem eight_dvd_span (r : Record) : 8 ∣ span r := by
  unfold span
  exact dvd_add (dvd_refl 8) (roundUp_dvd _ 8)

theorem eight_dvd_extent (recs : List Record) : 8 ∣ extent recs := by
  induction recs with
  | nil => exact Nat.dvd_zero 8
  | cons r rest ih =>
    rw [extent_cons]
    exact dvd_add (eight_dvd_span r) ih

def Laid (m : Nat → UInt8) : Nat → List Record → Prop
  | _, [] => True
  | off, r :: rest => word m off = r.head ∧ word m (off+4) = r.data.length ∧ load m (off+8) r.data.length = r.data ∧
      Laid m (off+span r) rest

variable {new_size off rec tag : Nat} {recs : List Record}

theorem laid_append {m : Nat → UInt8} {first second : List Record} :
    Laid m off (first ++ second) ↔ Laid m off first ∧ Laid m (off+extent first) second := by
  induction first generalizing off with
  | nil => simp [Laid]
  | cons r rest ih =>
    simp only [cons_append,Laid,ih,extent_cons,and_assoc,add_assoc]

theorem laid_moved {m m' : Nat → UInt8} {off off' : Nat}
    (same : ∀ k, k < extent recs → m' (off'+k) = m (off+k)) (laid : Laid m off recs) : Laid m' off' recs := by
  induction recs generalizing off off' with
  | nil => trivial
  | cons r rest ih =>
    obtain ⟨head,size,data,later⟩ := laid
    have long := le_roundUp r.data.length (show 0 < 8 by decide)
    rw [extent_cons] at same
    have bytes : ∀ k, k < span r → m' (off'+k) = m (off+k) := fun k inside => same k (by omega)
    unfold span at bytes
    refine ⟨?_,?_,?_,?_⟩
    · have moved : word m' off' = word m off := by
        have b0 := bytes 0 (by omega)
        simp only [add_zero] at b0
        unfold word
        rw [b0,bytes 1 (by omega),bytes 2 (by omega),bytes 3 (by omega)]
      exact moved.trans head
    · have moved : word m' (off'+4) = word m (off+4) := by
        unfold word
        simp only [add_assoc]
        rw [bytes 4 (by omega),bytes (4+1) (by omega),bytes (4+2) (by omega),bytes (4+3) (by omega)]
      exact moved.trans size
    · rw [← data,load_length]
      apply load_congr
      intro i inside
      rw [add_assoc,add_assoc]
      exact bytes (8+i) (by omega)
    · refine ih (fun k inside => ?_) later
      rw [add_assoc,add_assoc]
      exact same (span r+k) (by omega)

/-- A header of 8 bytes, and a size that is an `int`. -/
structure Plain (r : Record) : Prop where
  hdr : r.head/2^BLOBLISTR_HDR_SIZE_SHIFT = BLOBLIST_REC_HDR_SIZE
  int : r.data.length ≤ intMax

theorem end_ofs_span {b : Bloblist} (default : b.align_log2 = 3) (multiple : 8 ∣ rec)
    (hdr : rec_hdr_size b rec = BLOBLIST_REC_HDR_SIZE) :
    bloblist_blob_end_ofs b rec = some (rec+8+roundUp (rec_size b rec) 8) := by
  rw [end_ofs_eq hdr,default]
  refine ⟨by decide,?_⟩
  show _ = roundUp _ 8
  rw [roundUp_eight,roundUp_eight]
  omega

theorem laid_record {b : Bloblist} {r : Record} {rest : List Record} (laid : Laid b.mem off (r :: rest))
    (plain : Plain r) : rec_hdr_size b off = BLOBLIST_REC_HDR_SIZE ∧ rec_size b off = r.data.length ∧
      rec_tag b off = r.head%2^BLOBLISTR_HDR_SIZE_SHIFT ∧ record_at b off = r := by
  obtain ⟨head,size,data,-⟩ := laid
  have hdr : rec_hdr_size b off = BLOBLIST_REC_HDR_SIZE := by
    rw [rec_hdr_size,tag_and_hdr_size,head]
    exact plain.hdr
  refine ⟨hdr,size,by rw [rec_tag,tag_and_hdr_size,head],?_⟩
  have whole : load b.mem (off+rec_hdr_size b off) (rec_size b off) = r.data := by
    rw [hdr,rec_size,size]
    exact data
  rw [record_at,whole,tag_and_hdr_size,head]

def offsets : Nat → List Record → List Nat
  | _, [] => []
  | off, r :: rest => off :: offsets (off+span r) rest

theorem laid_visits {b : Bloblist} (default : b.align_log2 = 3) (multiple : 8 ∣ off)
    (laid : Laid b.mem off recs) (plain : ∀ r ∈ recs, Plain r) (filled : b.used_size = off+extent recs) :
    Visits b (record_from b off) (offsets off recs) ∧ (offsets off recs).map (record_at b) = recs := by
  induction recs generalizing off with
  | nil =>
    rw [record_from,if_pos (by rw [filled]; exact le_rfl)]
    exact ⟨.done,rfl⟩
  | cons r rest ih =>
    obtain ⟨hdr,size,-,same⟩ := laid_record laid (plain r mem_cons_self)
    have ends := end_ofs_span default multiple hdr
    rw [size,add_assoc] at ends
    rw [extent_cons] at filled
    obtain ⟨later,read⟩ := ih (dvd_add multiple (eight_dvd_span r)) laid.2.2.2
      (fun q member => plain q (mem_cons_of_mem r member)) (by omega)
    have inside : ¬ b.used_size ≤ off := by rw [filled]; unfold span; omega
    rw [record_from,if_neg inside,offsets,map_cons,same,read]
    exact ⟨.record (next_blob_eq ends) later,rfl⟩

theorem visits_laid {b : Bloblist} {offs : List Nat} (default : b.align_log2 = 3) (multiple : 8 ∣ off)
    (visits : Visits b (record_from b off) offs) (plain : ∀ r ∈ offs.map (record_at b), Plain r) :
    Laid b.mem off (offs.map (record_at b)) ∧ b.used_size ≤ off+extent (offs.map (record_at b)) ∧
      ∀ r, (offs.map (record_at b)).getLast? = some r →
        off+extent (offs.map (record_at b)) < b.used_size+span r := by
  induction offs generalizing off with
  | nil =>
    rw [record_from] at visits
    by_cases behind : b.used_size ≤ off
    · exact ⟨trivial,behind,by simp⟩
    · rw [if_neg behind] at visits
      cases visits
  | cons first rest ih =>
    rw [record_from] at visits
    by_cases behind : b.used_size ≤ off
    · rw [if_pos behind] at visits
      cases visits
    rw [if_neg behind] at visits
    cases visits with
    | record step later =>
      have hdr : rec_hdr_size b first = BLOBLIST_REC_HDR_SIZE := (plain (record_at b first) (by simp)).hdr
      have length : (record_at b first).data.length = rec_size b first := by simp [record_at]
      have ends := end_ofs_span default multiple hdr
      rw [next_blob_eq ends] at step
      cases step
      have spans : first+8+roundUp (rec_size b first) 8 = first+span (record_at b first) := by
        rw [span,length,add_assoc]
      rw [spans] at later
      obtain ⟨laid,covered,last⟩ := ih (dvd_add multiple (eight_dvd_span _)) later
        (fun r member => plain r (mem_cons_of_mem _ member))
      rw [map_cons,extent_cons]
      refine ⟨⟨rfl,by rw [length]; rfl,?_,laid⟩,by omega,?_⟩
      · rw [length,record_at,hdr]
        rfl
      · intro r is_last
        cases rest with
        | nil =>
          obtain rfl : record_at b first = r := by simpa using is_last
          rw [map_nil,extent_nil]
          omega
        | cons second more =>
          have ends_same := last r (by simpa using is_last)
          omega

theorem visits_unique {b : Bloblist} {start : Option Nat} {offs offs' : List Nat} (one : Visits b start offs)
    (two : Visits b start offs') : offs = offs' := by
  induction one generalizing offs' with
  | done => cases two; rfl
  | record step later ih =>
    cases two with
    | record step' later' =>
      rw [step] at step'
      cases step'
      rw [ih later']

theorem laid_find {b : Bloblist} (default : b.align_log2 = 3) (multiple : 8 ∣ off)
    (laid : Laid b.mem off recs) (plain : ∀ r ∈ recs, Plain r) (filled : b.used_size = off+extent recs) (tag : Nat)
    {rounds : Nat} (enough : recs.length ≤ rounds) :
    find_from b tag rounds (record_from b off) = some none ∨
    ∃ pre r post, recs = pre ++ r :: post ∧ (∀ q ∈ pre, q.head%2^BLOBLISTR_HDR_SIZE_SHIFT ≠ tag) ∧
      r.head%2^BLOBLISTR_HDR_SIZE_SHIFT = tag ∧
      find_from b tag rounds (record_from b off) = some (some (off+extent pre)) := by
  induction recs generalizing off rounds with
  | nil =>
    rw [record_from,if_pos (by rw [filled]; exact le_rfl)]
    exact .inl (by simp [find_from])
  | cons r rest ih =>
    obtain ⟨hdr,size,tagged,-⟩ := laid_record laid (plain r mem_cons_self)
    have ends := end_ofs_span default multiple hdr
    rw [size,add_assoc] at ends
    rw [extent_cons] at filled
    simp only [length_cons] at enough
    obtain ⟨left,rfl⟩ : ∃ left, rounds = left+1 := ⟨rounds-1,by omega⟩
    have inside : ¬ b.used_size ≤ off := by rw [filled]; unfold span; omega
    rw [record_from,if_neg inside,find_from,tagged]
    by_cases found : r.head%2^BLOBLISTR_HDR_SIZE_SHIFT = tag
    · rw [if_pos found]
      exact .inr ⟨[],r,rest,rfl,by simp,found,rfl⟩
    rw [if_neg found,next_blob_eq ends,bind_some]
    rcases ih (dvd_add multiple (eight_dvd_span r)) laid.2.2.2
      (fun q member => plain q (mem_cons_of_mem r member))
      (show b.used_size = off+span r+extent rest by omega) (show rest.length ≤ left by omega) with
      missing | ⟨pre,q,post,rfl,others,here,result⟩
    · exact .inl missing
    refine .inr ⟨r :: pre,q,post,rfl,?_,here,?_⟩
    · intro p member
      rcases mem_cons.mp member with rfl | later
      · exact found
      · exact others p later
    · have place : off+extent (r :: pre) = off+span r+extent pre := by rw [extent_cons,add_assoc]
      rw [place]
      exact result

theorem resize_first_split {pre : List Record} {r : Record} {post : List Record}
    (others : ∀ q ∈ pre, q.head%2^BLOBLISTR_HDR_SIZE_SHIFT ≠ tag) (here : r.head%2^BLOBLISTR_HDR_SIZE_SHIFT = tag) :
    resize_first tag new_size (pre ++ r :: post) = pre ++ ⟨r.head,resize_data new_size r.data⟩ :: post := by
  induction pre with
  | nil => rw [nil_append,resize_first,if_pos here,nil_append]
  | cons q rest ih =>
    rw [cons_append,resize_first,if_neg (others q mem_cons_self),
      ih (fun p member => others p (mem_cons_of_mem q member)),cons_append]


/-- The records fill the used part of a list with the default alignment. -/
structure Ordered (b : Bloblist) (recs : List Record) : Prop where
  default : b.align_log2 = 3
  base : 8 ∣ b.addr
  laid : Laid b.mem BLOBLIST_HDR_SIZE recs
  plain : ∀ r ∈ recs, Plain r
  filled : b.used_size = BLOBLIST_HDR_SIZE+extent recs
  within : b.used_size ≤ b.total_size
  small : b.total_size < 2^32

theorem eight_dvd_hdr : 8 ∣ BLOBLIST_HDR_SIZE := ⟨3,rfl⟩

theorem Ordered.multiple {b : Bloblist} (ordered : Ordered b recs) : 8 ∣ b.used_size := by
  rw [ordered.filled]
  exact dvd_add eight_dvd_hdr (eight_dvd_extent recs)

theorem Ordered.visits {b : Bloblist} (ordered : Ordered b recs) :
    Visits b (bloblist_first_blob b) (offsets BLOBLIST_HDR_SIZE recs) ∧
      (offsets BLOBLIST_HDR_SIZE recs).map (record_at b) = recs :=
  laid_visits ordered.default eight_dvd_hdr ordered.laid ordered.plain ordered.filled

theorem Ordered.reads_iff {b : Bloblist} (ordered : Ordered b recs) (recs' : List Record) :
    Reads b recs' ↔ recs' = recs := by
  obtain ⟨visits,read⟩ := ordered.visits
  constructor
  · rintro ⟨offs,visits',rfl⟩
    rw [visits_unique visits' visits,read]
  · rintro rfl
    exact ⟨_,visits,read⟩

theorem new_ordered {addr size : Nat} {mem : Nat → UInt8} {b : Bloblist} (small : size < 2^32)
    (made : bloblist_new addr size 0 mem = .ok b) : Ordered b [] := by
  have sound := (new_sound small made).1
  unfold bloblist_new at made
  split at made
  · contradiction
  · split at made
    · contradiction
    · cases made
      exact ⟨rfl,sound.base,trivial,by simp,rfl,sound.within,sound.small⟩

theorem write_rec_data (b : Bloblist) {tag size : Nat} (align_log2 n : Nat) (tag_small : tag < 2^24) :
    load (write_rec b tag size align_log2 n).mem (b.used_size+8) size = replicate size 0 := by
  have head_small : (tag ||| BLOBLIST_REC_HDR_SIZE <<< BLOBLISTR_HDR_SIZE_SHIFT) < 2^32 := head_word_lt (by omega)
  have hdr : word (store (store b.mem b.used_size (le32 (tag ||| BLOBLIST_REC_HDR_SIZE <<< BLOBLISTR_HDR_SIZE_SHIFT)))
      (b.used_size+4) (le32 size)) b.used_size/2^BLOBLISTR_HDR_SIZE_SHIFT = 8 := by
    rw [word_store_apart _ (.inl le_rfl),word_store head_small,head_word_eq tag_small]
    unfold BLOBLISTR_HDR_SIZE_SHIFT
    omega
  have read (mem : Nat → UInt8) := load_store mem (b.used_size+8) (replicate size (0 : UInt8))
  simp only [length_replicate] at read
  simp only [write_rec,hdr]
  exact read _

theorem add_ordered {b after : Bloblist} (ordered : Ordered b recs) {tag size rec : Nat}
    (int : size ≤ intMax) (fits : AddFits b tag size 0)
    (added : bloblist_addrec b tag size 0 = some ((0,rec),after)) :
    Ordered after (recs ++ [⟨tag ||| BLOBLIST_REC_HDR_SIZE <<< BLOBLISTR_HDR_SIZE_SHIFT,replicate size 0⟩]) := by
  have flush : gap b 0 = 0 :=
    padding_eq_zero (dvd_add (dvd_add ordered.base ordered.multiple) (by decide))
  have ends := fits.ends
  rw [flush,ordered.default] at ends
  replace ends : (b.used_size+0+16 : Int)+align size 3 = roundUp (b.used_size+0+16+size) 8 := ends
  have multiple := ordered.multiple
  have within := ordered.within
  have small := ordered.small
  unfold intMax at int
  have total : Bloblist.new_alloced b size (effective 0) = ((b.used_size+(8+roundUp size 8) : Nat) : Int) := by
    show (_ + _ + align size 3)%2^64 = _
    rw [roundUp_eight] at ends ⊢
    unfold BLOBLIST_REC_HDR_SIZE
    omega
  rw [bloblist_addrec,addrec_flush 1 tag size (by decide) flush,addrec_here,total] at added
  by_cases full : ((b.used_size+(8+roundUp size 8) : Nat) : Int) > b.total_size
  · rw [if_pos full] at added
    cases added
  rw [if_neg full] at added
  cases added
  have tag_small := fits.tag
  obtain ⟨head,length,below⟩ := write_rec_words b (effective 0) (b.used_size+(8+roundUp size 8))
    (show tag < 2^32 by omega) (show size < 2^32 by omega)
  have data := @write_rec_data b tag size (effective 0) (b.used_size+(8+roundUp size 8)) tag_small
  refine ⟨ordered.default,ordered.base,?_,?_,?_,?_,small⟩
  · refine laid_append.mpr ⟨laid_moved (fun k inside => ?_) ordered.laid,?_,?_,?_,trivial⟩
    · exact below _ (by rw [ordered.filled]; omega)
    · rw [← ordered.filled]
      exact head
    · rw [← ordered.filled,length_replicate]
      exact length
    · rw [← ordered.filled,length_replicate]
      exact data
  · intro r member
    rcases mem_append.mp member with old | new
    · exact ordered.plain r old
    · obtain rfl := mem_singleton.mp new
      refine ⟨?_,by simpa [intMax] using int⟩
      show (tag ||| BLOBLIST_REC_HDR_SIZE <<< BLOBLISTR_HDR_SIZE_SHIFT)/2^24 = 8
      rw [head_word_eq tag_small]
      omega
  · have filled := ordered.filled
    show b.used_size+(8+roundUp size 8) = _
    rw [extent_append,extent_cons,extent_nil,span,length_replicate]
    omega
  · show b.used_size+(8+roundUp size 8) ≤ b.total_size
    omega

theorem offsets_split {before behind : List Nat}
    (split : offsets off recs = before ++ rec :: behind) :
    ∃ pre r post, recs = pre ++ r :: post ∧ rec = off+extent pre := by
  induction recs generalizing off before with
  | nil => simp [offsets] at split
  | cons r rest ih =>
    cases before with
    | nil =>
      obtain ⟨rfl,-⟩ := List.cons.inj split
      exact ⟨[],r,rest,rfl,rfl⟩
    | cons first before =>
      obtain ⟨pre,q,post,rfl,place⟩ := ih (List.cons.inj split).2
      exact ⟨r :: pre,q,post,rfl,by rw [place,extent_cons,add_assoc]⟩

theorem fill_ordered {b : Bloblist} (ordered : Ordered b recs) {before behind : List Nat}
    {rec i : Nat} (visits : Visits b (bloblist_first_blob b) (before ++ rec :: behind)) (inside : i < rec_size b rec)
    (byte : UInt8) : ∃ recs', Ordered { b with mem := store b.mem (rec+8+i) [byte] } recs' := by
  have same_offsets := visits_unique ordered.visits.1 visits
  obtain ⟨pre,r,post,rfl,place⟩ := offsets_split same_offsets
  obtain ⟨first,here⟩ := laid_append.mp ordered.laid
  have plain := ordered.plain r (by simp)
  rw [← place] at here
  obtain ⟨-,size,-,-⟩ := laid_record here plain
  have long := le_roundUp r.data.length (show 0 < 8 by decide)
  have apart : ∀ a, a < rec+8 ∨ rec+8+r.data.length ≤ a → store b.mem (rec+8+i) [byte] a = b.mem a := by
    rintro a (low | high)
    · exact store_below _ _ (by omega)
    · exact store_above _ _ (by rw [length_singleton]; omega)
  have words : ∀ a, a = rec ∨ a = rec+4 → word (store b.mem (rec+8+i) [byte]) a = word b.mem a := by
    intro a place
    apply word_store_apart
    left
    omega
  refine ⟨pre ++ ⟨r.head,load (store b.mem (rec+8+i) [byte]) (rec+8) r.data.length⟩ :: post,?_⟩
  have spans : span ⟨r.head,load (store b.mem (rec+8+i) [byte]) (rec+8) r.data.length⟩ = span r := by
    simp [span]
  refine ⟨ordered.default,ordered.base,?_,?_,?_,ordered.within,ordered.small⟩
  · refine laid_append.mpr ⟨laid_moved (fun k below => apart _ (.inl (by omega))) first,?_⟩
    rw [← place]
    refine ⟨?_,?_,?_,?_⟩
    · rw [words rec (.inl rfl)]
      exact here.1
    · rw [words (rec+4) (.inr rfl),load_length]
      exact here.2.1
    · rw [load_length]
    · rw [spans]
      refine laid_moved (fun k below => apart _ (.inr ?_)) here.2.2.2
      unfold span
      omega
  · intro q member
    rcases mem_append.mp member with old | new
    · exact ordered.plain q (mem_append_left _ old)
    · rcases mem_cons.mp new with rfl | later
      · exact ⟨plain.hdr,by simpa using plain.int⟩
      · exact ordered.plain q (by simp [later])
  · have filled := ordered.filled
    rw [extent_append,extent_cons] at filled ⊢
    rw [spans]
    exact filled

theorem built_ordered {b : Bloblist} (built : Built b) : ∃ recs, Ordered b recs := by
  induction built with
  | new small made => exact ⟨[],new_ordered small made⟩
  | add _ int fits added ih =>
    obtain ⟨recs,ordered⟩ := ih
    exact ⟨_,add_ordered ordered int fits added⟩
  | fill _ visits inside byte ih =>
    obtain ⟨recs,ordered⟩ := ih
    exact fill_ordered ordered visits inside byte

/-- The difference of two sizes, rounded up to 8. -/
def growth (old new_size : Nat) : Int := ((new_size : Int)-old+7)/8*8

theorem growth_eq (old new_size : Nat) :
    growth old new_size =
      (roundUp new_size 8 : Int)-roundUp old 8+(if padding old 8 ≤ padding new_size 8 then 0 else 8) := by
  unfold growth padding
  rw [roundUp_eight,roundUp_eight]
  split <;> omega

theorem expand_by_eq {b : Bloblist} {rec old new_size : Nat} (size : rec_size b rec = old) (old_int : old ≤ intMax)
    (new_int : new_size ≤ intMax) :
    expand_by b rec new_size = if growth old new_size = 2^31 then -2^31 else growth old new_size := by
  unfold intMax at old_int new_int
  rw [expand_by,size,align_u32,wrap,Int.bmod_def]
  unfold growth
  split <;> split <;> omega

theorem new_alloced_eq {b : Bloblist} {rec old new_size : Nat} (size : rec_size b rec = old) (old_int : old ≤ intMax)
    (new_int : new_size ≤ intMax) (multiple : 8 ∣ b.used_size) :
    (new_alloced b rec new_size : Int) = (b.used_size+growth old new_size)%2^32 := by
  rw [new_alloced,expand_by_eq size old_int new_int,align_u32]
  unfold growth intMax at *
  split <;> omega

theorem resize_data_length (new_size : Nat) (data : List UInt8) : (resize_data new_size data).length = new_size := by
  simp only [resize_data,length_append,length_take,length_replicate]
  omega

theorem laid_resized {m m' : Nat → UInt8} {pre : List Record} {r : Record} {post : List Record}
    (laid : Laid m off (pre ++ r :: post))
    (low : ∀ a, a < off+extent pre+4 → m' a = m a)
    (size : word m' (off+extent pre+4) = new_size)
    (kept : ∀ i, i < r.data.length → i < new_size → m' (off+extent pre+8+i) = m (off+extent pre+8+i))
    (zero : ∀ i, r.data.length ≤ i → i < new_size → m' (off+extent pre+8+i) = 0)
    (moved : ∀ k, k < extent post → m' (off+extent pre+8+roundUp new_size 8+k) = m (off+extent pre+span r+k)) :
    Laid m' off (pre ++ ⟨r.head,resize_data new_size r.data⟩ :: post) := by
  obtain ⟨first,head,-,data,later⟩ := laid_append.mp laid
  have length := resize_data_length new_size r.data
  refine laid_append.mpr ⟨laid_moved (fun k below => low _ (by omega)) first,?_,?_,?_,?_⟩
  · rw [← head]
    apply word_congr
    intro i inside
    exact low _ (by omega)
  · rw [length]
    exact size
  · rw [length,resize_data]
    by_cases shrinks : new_size ≤ r.data.length
    · have none_added : new_size-r.data.length = 0 := by omega
      rw [none_added,replicate_zero,append_nil,← data,load_take _ _ shrinks]
      exact load_congr (fun i inside => kept i (by omega) inside)
    obtain ⟨more,rfl⟩ : ∃ more, new_size = r.data.length+more := ⟨new_size-r.data.length,by omega⟩
    have added : r.data.length+more-r.data.length = more := by omega
    rw [added,load_append,take_of_length_le (by omega)]
    congr 1
    · nth_rewrite 2 [← data]
      exact load_congr (fun i inside => kept i inside (by omega))
    · refine eq_replicate_iff.mpr ⟨load_length _ _ _,fun byte member => ?_⟩
      obtain ⟨i,inside,rfl⟩ := List.mem_map.mp member
      rw [add_assoc]
      exact zero (r.data.length+i) (by omega) (by have := mem_range.mp inside; omega)
  · have spans : off+extent pre+span ⟨r.head,resize_data new_size r.data⟩ = off+extent pre+8+roundUp new_size 8 := by
      rw [span,length]
      omega
    rw [spans]
    exact laid_moved moved later

def HasRoom (b : Bloblist) (rec new_size : Nat) : Prop :=
  ((b.used_size : Int)+growth (rec_size b rec) new_size)%2^32 ≤ b.total_size

/-- The change moves the following records to where the walk looks for them:
    no more padding goes than comes, the used part stays below 4 GiB, and the
    difference is an `int`, or there is nothing to move and nothing to clear. -/
structure ResizeFits (b : Bloblist) (rec new_size : Nat) : Prop where
  rounding : padding (rec_size b rec) 8 ≤ padding new_size 8
  below : b.used_size+roundUp new_size 8 < 2^32+roundUp (rec_size b rec) 8
  zeroed : roundUp new_size 8 < 2^31+roundUp (rec_size b rec) 8 ∨
    bloblist_blob_end_ofs b rec = some b.used_size ∧
      ∀ i, rec_size b rec ≤ i → i < new_size → b.mem (rec+8+i) = 0

section
variable {b : Bloblist} {pre : List Record} {r : Record} {post : List Record}

theorem ordered_at (ordered : Ordered b (pre ++ r :: post)) :
    rec_hdr_size b (BLOBLIST_HDR_SIZE+extent pre) = BLOBLIST_REC_HDR_SIZE ∧
    rec_size b (BLOBLIST_HDR_SIZE+extent pre) = r.data.length ∧ r.data.length ≤ intMax ∧
    bloblist_blob_end_ofs b (BLOBLIST_HDR_SIZE+extent pre) = some (BLOBLIST_HDR_SIZE+extent pre+span r) ∧
    b.used_size = BLOBLIST_HDR_SIZE+extent pre+span r+extent post := by
  have plain := ordered.plain r (by simp)
  obtain ⟨hdr,size,-,-⟩ := laid_record (laid_append.mp ordered.laid).2 plain
  have ends := end_ofs_span ordered.default (dvd_add eight_dvd_hdr (eight_dvd_extent pre)) hdr
  have filled := ordered.filled
  rw [extent_append,extent_cons] at filled
  refine ⟨hdr,size,plain.int,?_,by omega⟩
  rw [ends,size,span,add_assoc _ 8]

theorem no_room_keeps (ordered : Ordered b (pre ++ r :: post)) (int : new_size ≤ intMax)
    (full : ¬ HasRoom b (BLOBLIST_HDR_SIZE+extent pre) new_size) :
    bloblist_resize_rec b (BLOBLIST_HDR_SIZE+extent pre) new_size = some (-ENOSPC,b) := by
  obtain ⟨-,size,old_int,-,-⟩ := ordered_at ordered
  have total := new_alloced_eq size old_int int ordered.multiple
  rw [HasRoom,size] at full
  have too_large : new_alloced b (BLOBLIST_HDR_SIZE+extent pre) new_size > b.total_size := by omega
  rw [bloblist_resize_rec,if_neg (by omega),if_pos too_large]

theorem Ordered.resized_plain (ordered : Ordered b (pre ++ r :: post)) (int : new_size ≤ intMax) :
    ∀ q ∈ pre ++ ⟨r.head,resize_data new_size r.data⟩ :: post, Plain q := by
  intro q member
  rcases mem_append.mp member with before | rest
  · exact ordered.plain q (mem_append_left _ before)
  · rcases mem_cons.mp rest with rfl | behind
    · refine ⟨(ordered.plain r (by simp)).hdr,?_⟩
      rw [resize_data_length]
      exact int
    · exact ordered.plain q (by simp [behind])

theorem extent_resized (pre : List Record) (r : Record) (post : List Record) (new_size : Nat) :
    extent (pre ++ ⟨r.head,resize_data new_size r.data⟩ :: post) = extent pre+(8+roundUp new_size 8)+extent post := by
  rw [extent_append,extent_cons,span,resize_data_length]
  omega

theorem resize_rec_eq (ordered : Ordered b (pre ++ r :: post)) (int : new_size ≤ intMax)
    (room : HasRoom b (BLOBLIST_HDR_SIZE+extent pre) new_size) :
    bloblist_resize_rec b (BLOBLIST_HDR_SIZE+extent pre) new_size =
      (move_following b (BLOBLIST_HDR_SIZE+extent pre+span r)
        (expand_by b (BLOBLIST_HDR_SIZE+extent pre) new_size)).map
          fun mem => (0,update_sizes b (BLOBLIST_HDR_SIZE+extent pre) new_size
            (expand_by b (BLOBLIST_HDR_SIZE+extent pre) new_size)
            (new_alloced b (BLOBLIST_HDR_SIZE+extent pre) new_size) mem) := by
  obtain ⟨-,size,old_int,ends,-⟩ := ordered_at ordered
  have total := new_alloced_eq size old_int int ordered.multiple
  rw [HasRoom,size] at room
  have enough : ¬ new_alloced b (BLOBLIST_HDR_SIZE+extent pre) new_size > b.total_size := by omega
  rw [bloblist_resize_rec,if_neg (by omega),if_neg enough,ends,bind_some]

theorem memmove_below (m : Nat → UInt8) {dst src len a : Nat} (low : a < dst) : memmove m dst src len a = m a := by
  rw [memmove,if_neg (by omega)]

theorem memmove_inside (m : Nat → UInt8) {dst src len k : Nat} (inside : k < len) :
    memmove m dst src len (dst+k) = m (src+k) := by
  rw [memmove,if_pos (by omega),Nat.add_sub_cancel_left]

theorem move_following_eq (ordered : Ordered b (pre ++ r :: post))
    (grows : growth r.data.length new_size = (roundUp new_size 8 : Int)-roundUp r.data.length 8) :
    move_following b (BLOBLIST_HDR_SIZE+extent pre+span r) (growth r.data.length new_size) =
      some (memmove b.mem (BLOBLIST_HDR_SIZE+extent pre+8+roundUp new_size 8) (BLOBLIST_HDR_SIZE+extent pre+span r)
        (extent post)) := by
  set off := BLOBLIST_HDR_SIZE+extent pre
  obtain ⟨-,-,-,-,used⟩ := ordered_at ordered
  have target : ((off+span r : Nat) : Int)+growth r.data.length new_size =
      (off+8+roundUp new_size 8 : Nat) := by
    rw [grows]
    unfold span
    omega
  have behind : b.used_size-(off+span r) = extent post := by omega
  rw [move_following,target,Int.toNat_natCast,behind]
  by_cases last : off+span r = b.used_size
  · have nothing : extent post = 0 := by omega
    have still : memmove b.mem (off+8+roundUp new_size 8)
        (off+span r) 0 = b.mem := by
      funext a
      rw [memmove,if_neg (by omega)]
    rw [if_pos last,nothing,still]
  · rw [if_neg last,if_neg (by omega)]

/-- The memory of a change that moves the following records right. -/
theorem laid_of_moved {mem : Nat → UInt8} (ordered : Ordered b (pre ++ r :: post)) (int : new_size ≤ intMax)
    (expand_by : Int) (new_alloced : Nat)
    (kept : ∀ a, a < BLOBLIST_HDR_SIZE+extent pre+8+roundUp new_size 8 → mem a = b.mem a)
    (shifted : ∀ k, k < extent post → mem (BLOBLIST_HDR_SIZE+extent pre+8+roundUp new_size 8+k) =
      b.mem (BLOBLIST_HDR_SIZE+extent pre+span r+k))
    (zeros : expand_by > 0 ∨
      ∀ i, r.data.length ≤ i → i < new_size → b.mem (BLOBLIST_HDR_SIZE+extent pre+8+i) = 0)
    (grown : expand_by > 0 → r.data.length < new_size) :
    Laid (update_sizes b (BLOBLIST_HDR_SIZE+extent pre) new_size expand_by new_alloced mem).mem BLOBLIST_HDR_SIZE
      (pre ++ ⟨r.head,resize_data new_size r.data⟩ :: post) := by
  obtain ⟨hdr,size,old_int,-,-⟩ := ordered_at ordered
  have long := le_roundUp new_size (show 0 < 8 by decide)
  have in_word : new_size < 2^32 := by unfold intMax at int; omega
  unfold intMax at old_int
  have laid := ordered.laid
  generalize place : BLOBLIST_HDR_SIZE+extent pre = rec at hdr size kept shifted zeros grown ⊢
  have same_hdr : word mem rec = word b.mem rec := word_congr (fun i _ => kept _ (by omega))
  have same_size : word mem (rec+4) = word b.mem (rec+4) := word_congr (fun i _ => kept _ (by omega))
  have read_hdr : rec_hdr_size { b with mem := mem, used_size := new_alloced } rec = 8 := by
    rw [rec_hdr_size,tag_and_hdr_size,same_hdr]
    exact hdr
  have read_size : rec_size { b with mem := mem, used_size := new_alloced } rec = r.data.length := by
    rw [rec_size,same_size]
    exact size
  -- The memory before the size is written.
  obtain ⟨zeroed,written,cleared,apart⟩ : ∃ zeroed : Nat → UInt8,
      (update_sizes b rec new_size expand_by new_alloced mem).mem = store zeroed (rec+4) (le32 new_size) ∧
      (∀ i, r.data.length ≤ i → i < new_size → zeroed (rec+8+i) = 0) ∧
      ∀ a, a < rec+8+r.data.length ∨ rec+8+new_size ≤ a → zeroed a = mem a := by
    by_cases expands : expand_by > 0
    · have larger := grown expands
      have count_ : (((new_size : Int)-r.data.length)%2^32).toNat = new_size-r.data.length := by omega
      refine ⟨store mem (rec+8+r.data.length) (replicate (new_size-r.data.length) 0),?_,?_,?_⟩
      · simp only [update_sizes,read_hdr,read_size,if_pos expands,count_,Int.toNat_natCast]
      · intro i old new
        obtain ⟨k,rfl⟩ := Nat.exists_eq_add_of_le old
        rw [← add_assoc]
        apply store_inside
        rw [getElem?_replicate,if_pos (by omega)]
      · rintro a (low | high)
        · exact store_below _ _ low
        · exact store_above _ _ (by rw [length_replicate]; omega)
    · refine ⟨mem,?_,?_,fun _ _ => rfl⟩
      · simp only [update_sizes,read_hdr,read_size,if_neg expands,Int.toNat_natCast]
      · intro i old new
        rw [kept _ (by omega)]
        exact zeros.resolve_left expands i old new
  have above : ∀ a, rec+8 ≤ a → store zeroed (rec+4) (le32 new_size) a = zeroed a :=
    fun a high => store_above _ _ (by simp only [le32,length_cons,length_nil]; omega)
  rw [written]
  refine laid_resized laid ?_ ?_ ?_ ?_ ?_ <;> rw [place]
  · intro a low
    rw [store_below _ _ low,apart a (.inl (by omega)),kept a (by omega)]
  · exact word_store in_word _ _
  · intro i old new
    rw [above _ (by omega),apart _ (.inl (by omega)),kept _ (by omega)]
  · intro i old new
    rw [above _ (by omega)]
    exact cleared i old new
  · intro k inside
    rw [above _ (by omega),apart _ (.inr (by omega)),shifted k inside]

theorem updated_reads (ordered : Ordered b (pre ++ r :: post)) {rec new_size new_alloced : Nat} {expand_by : Int}
    {mem : Nat → UInt8} (int : new_size ≤ intMax)
    (filled : new_alloced = BLOBLIST_HDR_SIZE+extent (pre ++ ⟨r.head,resize_data new_size r.data⟩ :: post))
    (laid : Laid (update_sizes b rec new_size expand_by new_alloced mem).mem BLOBLIST_HDR_SIZE
      (pre ++ ⟨r.head,resize_data new_size r.data⟩ :: post)) :
    Reads (update_sizes b rec new_size expand_by new_alloced mem)
      (pre ++ ⟨r.head,resize_data new_size r.data⟩ :: post) := by
  have default : (update_sizes b rec new_size expand_by new_alloced mem).align_log2 = 3 := ordered.default
  exact ⟨_,laid_visits default eight_dvd_hdr laid (ordered.resized_plain int) filled⟩

theorem resize_rec_fits (ordered : Ordered b (pre ++ r :: post)) (int : new_size ≤ intMax)
    (room : HasRoom b (BLOBLIST_HDR_SIZE+extent pre) new_size)
    (fits : ResizeFits b (BLOBLIST_HDR_SIZE+extent pre) new_size) :
    ∃ after, bloblist_resize_rec b (BLOBLIST_HDR_SIZE+extent pre) new_size = some (0,after) ∧
      Reads after (pre ++ ⟨r.head,resize_data new_size r.data⟩ :: post) := by
  obtain ⟨-,size,old_int,ends,used⟩ := ordered_at ordered
  have rounding := fits.rounding
  have below := fits.below
  have zeroed := fits.zeroed
  have grows := growth_eq r.data.length new_size
  have expands := expand_by_eq size old_int int
  have total := new_alloced_eq size old_int int ordered.multiple
  rw [size] at rounding below zeroed
  rw [ends,Option.some.injEq] at zeroed
  rw [if_pos rounding,add_zero] at grows
  have filled : new_alloced b (BLOBLIST_HDR_SIZE+extent pre) new_size =
      BLOBLIST_HDR_SIZE+extent (pre ++ ⟨r.head,resize_data new_size r.data⟩ :: post) := by
    rw [extent_resized]
    unfold span at used
    omega
  rw [resize_rec_eq ordered int room]
  by_cases huge : growth r.data.length new_size = 2^31
  · -- The difference is no `int`: nothing may have to be moved or cleared.
    obtain ⟨last,zeros⟩ := zeroed.resolve_left (by omega)
    rw [move_following,if_pos last]
    refine ⟨_,rfl,updated_reads ordered int filled (laid_of_moved ordered int _ _ (fun _ _ => rfl) ?_ (.inr zeros) ?_)⟩
    · intro k inside
      omega
    · intro positive
      rw [expands,if_pos huge] at positive
      omega
  · rw [if_neg huge] at expands
    rw [expands,move_following_eq ordered grows]
    refine ⟨_,rfl,updated_reads ordered int filled (laid_of_moved ordered int _ _ ?_ ?_ ?_ ?_)⟩
    · exact fun a low => memmove_below _ low
    · exact fun k inside => memmove_inside _ inside
    · by_cases larger : r.data.length < new_size
      · left
        unfold growth
        omega
      · exact .inr (fun i old new => by omega)
    · intro positive
      unfold growth at positive
      omega

theorem end_agrees {used new_round old_round alloced : Nat} {grown excess : Int}
    (grows : grown = (new_round : Int)-old_round+excess) (some_excess : excess = 0 ∨ excess = 8)
    (total : (alloced : Int) = (used+grown)%2^32) (covered : alloced+old_round ≤ used+new_round)
    (starts : used+new_round < alloced+old_round+(2^31+8)) :
    excess = 0 ∧ used+new_round < 2^32+old_round := by
  omega

theorem updated_laid (ordered : Ordered b (pre ++ r :: post)) {rec new_size new_alloced : Nat} {expand_by : Int}
    {mem : Nat → UInt8} (int : new_size ≤ intMax)
    (reads : Reads (update_sizes b rec new_size expand_by new_alloced mem)
      (pre ++ ⟨r.head,resize_data new_size r.data⟩ :: post)) :
    Laid (update_sizes b rec new_size expand_by new_alloced mem).mem BLOBLIST_HDR_SIZE
      (pre ++ ⟨r.head,resize_data new_size r.data⟩ :: post) ∧
    new_alloced ≤ BLOBLIST_HDR_SIZE+(extent pre+(8+roundUp new_size 8)+extent post) ∧
    BLOBLIST_HDR_SIZE+(extent pre+(8+roundUp new_size 8)+extent post) < new_alloced+(2^31+8) := by
  have plain := ordered.resized_plain int
  obtain ⟨offs,visits,read⟩ := reads
  have default : (update_sizes b rec new_size expand_by new_alloced mem).align_log2 = 3 := ordered.default
  obtain ⟨laid,covered,last⟩ := visits_laid default eight_dvd_hdr visits (by rw [read]; exact plain)
  rw [read] at laid covered last
  rw [extent_resized] at covered last
  obtain ⟨q,is_last⟩ : ∃ q, (pre ++ ⟨r.head,resize_data new_size r.data⟩ :: post).getLast? = some q :=
    isSome_iff_exists.mp (by simp)
  have q_int := (plain q (mem_of_getLast? is_last)).int
  -- No record is larger than 2 GiB.
  have q_span : span q ≤ 2^31+8 := by
    unfold intMax at q_int
    rw [span,roundUp_eight]
    omega
  exact ⟨laid,covered,lt_of_lt_of_le (last q is_last) (Nat.add_le_add_left q_span _)⟩

theorem updated_zeros {rec new_size new_alloced : Nat} {expand_by : Int} (shrinks : ¬ expand_by > 0)
    (laid : Laid (update_sizes b rec new_size expand_by new_alloced b.mem).mem rec
      (⟨r.head,resize_data new_size r.data⟩ :: recs)) :
    ∀ i, r.data.length ≤ i → i < new_size → b.mem (rec+8+i) = 0 := by
  intro i old new
  have written : (update_sizes b rec new_size expand_by new_alloced b.mem).mem =
      store b.mem (rec+4) (le32 new_size) := by
    simp only [update_sizes,if_neg shrinks,Int.toNat_natCast]
  have apart : store b.mem (rec+4) (le32 new_size) (rec+8+i) = b.mem (rec+8+i) :=
    store_above _ _ (by simp only [le32,length_cons,length_nil]; omega)
  have added : (resize_data new_size r.data)[i]? = some 0 := by
    rw [resize_data,getElem?_append_right (by rw [length_take]; omega),getElem?_replicate,
      if_pos (by rw [length_take]; omega)]
  have data := laid.2.2.1
  rw [resize_data_length,written] at data
  have byte := congrArg (fun bytes => bytes[i]?) data
  simp only [added,load,getElem?_map,getElem?_range new,map_some,apart,Option.some.injEq] at byte
  exact byte

theorem resize_rec_read (ordered : Ordered b (pre ++ r :: post)) (int : new_size ≤ intMax)
    (room : HasRoom b (BLOBLIST_HDR_SIZE+extent pre) new_size) {after : Bloblist}
    (result : bloblist_resize_rec b (BLOBLIST_HDR_SIZE+extent pre) new_size = some (0,after))
    (reads : Reads after (pre ++ ⟨r.head,resize_data new_size r.data⟩ :: post)) :
    ResizeFits b (BLOBLIST_HDR_SIZE+extent pre) new_size := by
  obtain ⟨-,size,old_int,ends,used⟩ := ordered_at ordered
  have grows := growth_eq r.data.length new_size
  have expands := expand_by_eq size old_int int
  have total := new_alloced_eq size old_int int ordered.multiple
  rw [resize_rec_eq ordered int room] at result
  obtain ⟨mem,moves,same⟩ := map_eq_some_iff.mp result
  rw [← (Prod.mk.inj same).2] at reads
  obtain ⟨laid,covered,starts⟩ := updated_laid ordered int reads
  have spans : span r = 8+roundUp r.data.length 8 := rfl
  obtain ⟨no_excess,below⟩ := end_agrees grows (by split; exact .inl rfl; exact .inr rfl) total (by omega) (by omega)
  have rounding : padding r.data.length 8 ≤ padding new_size 8 := by
    by_contra more
    rw [if_neg more] at no_excess
    cases no_excess
  rw [if_pos rounding,add_zero] at grows
  refine ⟨by rw [size]; exact rounding,by rw [size]; exact below,?_⟩
  rw [size,ends,Option.some.injEq]
  by_cases fine : roundUp new_size 8 < 2^31+roundUp r.data.length 8
  · exact .inl fine
  have huge : growth r.data.length new_size = 2^31 := by
    unfold intMax at int
    rw [roundUp_eight] at fine grows
    omega
  rw [if_pos huge] at expands
  by_cases at_end : BLOBLIST_HDR_SIZE+extent pre+span r = b.used_size
  · rw [move_following,if_pos at_end] at moves
    rw [← Option.some.inj moves] at laid
    refine .inr ⟨at_end,updated_zeros ?_ (laid_append.mp laid).2⟩
    rw [expands]
    omega
  · -- The records would go below the start of the list.
    have under : (BLOBLIST_HDR_SIZE+extent pre+span r : Nat)+expand_by b (BLOBLIST_HDR_SIZE+extent pre) new_size <
        BLOBLIST_HDR_SIZE := by
      rw [expands]
      unfold BLOBLIST_HDR_SIZE at *
      omega
    rw [move_following,if_neg at_end,if_pos (.inr under)] at moves
    cases moves

end

theorem Ordered.findrec {b : Bloblist} (ordered : Ordered b recs) (tag : Nat) :
    bloblist_findrec b tag = some none ∨
    ∃ pre r post, recs = pre ++ r :: post ∧ (∀ q ∈ pre, q.head%2^BLOBLISTR_HDR_SIZE_SHIFT ≠ tag) ∧
      r.head%2^BLOBLISTR_HDR_SIZE_SHIFT = tag ∧
      bloblist_findrec b tag = some (some (BLOBLIST_HDR_SIZE+extent pre)) := by
  have many : ∀ recs : List Record, 8*recs.length ≤ extent recs := by
    intro recs
    induction recs with
    | nil => exact le_refl 0
    | cons r rest ih =>
      rw [extent_cons,length_cons]
      unfold span
      omega
  have filled := ordered.filled
  have enough := many recs
  exact laid_find ordered.default eight_dvd_hdr ordered.laid ordered.plain filled tag (by omega)

theorem keeps_of_fits {b : Bloblist} (built : Built b) (int : new_size ≤ intMax)
    (fits : ∀ rec, bloblist_findrec b tag = some (some rec) → HasRoom b rec new_size → ResizeFits b rec new_size) :
    Keeps b tag new_size := by
  obtain ⟨recs,ordered⟩ := built_ordered built
  rcases ordered.findrec tag with missing | ⟨pre,r,post,rfl,others,here,found⟩
  · refine ⟨-ENOENT,b,by rw [bloblist_resize,missing]; rfl,?_,fun _ => rfl⟩
    intro success
    exact absurd success (by decide)
  have call : bloblist_resize b tag new_size =
      bloblist_resize_rec b (BLOBLIST_HDR_SIZE+extent pre) new_size := by
    rw [bloblist_resize,found,bind_some,elim_some]
  by_cases room : HasRoom b (BLOBLIST_HDR_SIZE+extent pre) new_size
  · obtain ⟨after,result,reads⟩ := resize_rec_fits ordered int room (fits _ found room)
    refine ⟨0,after,call.trans result,fun _ => ⟨_,(ordered.reads_iff _).mpr rfl,?_⟩,fun failed => absurd rfl failed⟩
    rw [resize_first_split others here]
    exact reads
  · refine ⟨-ENOSPC,b,call.trans (no_room_keeps ordered int room),?_,fun _ => rfl⟩
    intro success
    exact absurd success (by decide)

theorem fits_of_keeps {b : Bloblist} (built : Built b) (int : new_size ≤ intMax)
    (keeps : Keeps b tag new_size) (at_rec : bloblist_findrec b tag = some (some rec))
    (room : HasRoom b rec new_size) : ResizeFits b rec new_size := by
  obtain ⟨recs,ordered⟩ := built_ordered built
  rcases ordered.findrec tag with missing | ⟨pre,r,post,rfl,others,here,found⟩
  · rw [missing] at at_rec
    cases at_rec
  obtain ⟨ret,after,result,success,-⟩ := keeps
  rw [bloblist_resize,found,bind_some,elim_some] at result
  rw [found] at at_rec
  cases at_rec
  have zero : ret = 0 := by
    rw [resize_rec_eq ordered int room] at result
    obtain ⟨mem,-,pair⟩ := map_eq_some_iff.mp result
    exact (Prod.mk.inj pair).1.symm
  subst zero
  obtain ⟨recs,before,behind⟩ := success rfl
  rw [(ordered.reads_iff recs).mp before,resize_first_split others here] at behind
  exact resize_rec_read ordered int room result behind

/-- A change of size keeps the rest of the list exactly when there is no room for
    it or it moves the following records to where the walk looks for them. -/
theorem bloblist_resize_keeps_iff (b : Bloblist) (built : Built b) (tag new_size : Nat) (int : new_size ≤ intMax) :
    Keeps b tag new_size ↔ ∀ rec, bloblist_findrec b tag = some (some rec) → HasRoom b rec new_size →
      ResizeFits b rec new_size :=
  ⟨fun keeps _ found room => fits_of_keeps built int keeps found room,keeps_of_fits built int⟩

def empty_list : Bloblist := ⟨0x1000,24,4096,3,fun _ => 0,[]⟩

def one_record : Bloblist := write_rec empty_list 1 4 3 40

/-- A record of 4 bytes with the tag 1, and one of 8 bytes with the tag 2. -/
def two_records : Bloblist := write_rec one_record 2 8 3 56

theorem two_records_built : Built two_records := by
  have made : bloblist_new 0x1000 4096 0 (fun _ => 0) = .ok empty_list := rfl
  have first : bloblist_addrec empty_list 1 4 0 = some ((0,24),one_record) := rfl
  have second : bloblist_addrec one_record 2 8 0 = some ((0,40),two_records) := rfl
  have one : Built one_record :=
    .add (.new (by decide) made) (by decide) ⟨by decide,by decide,.inl (by decide),by decide⟩ first
  exact .add one (by decide) ⟨by decide,by decide,.inl (by decide),by decide⟩ second

theorem two_records_first : bloblist_findrec two_records 1 = some (some 24) := by decide

/-- From 4 to 12 bytes. -/
theorem resize_four_to_twelve : Keeps two_records 1 12 := by
  refine (bloblist_resize_keeps_iff two_records two_records_built 1 12 (by decide)).mpr ?_
  intro rec found _
  rw [two_records_first] at found
  cases found
  exact ⟨by decide,by decide,.inl (by decide)⟩

/-- From 4 to 5 bytes: the second record is moved by 8 though the first one ends
    where it did, so its header is read as its data. -/
theorem resize_four_to_five :
    (bloblist_resize two_records 1 5).map (fun result => (result.1,record_at result.2 40)) =
      some (0,⟨0x08000002,[2,0,0,8,8,0,0,0]⟩) ∧
    record_at two_records 40 = ⟨0x08000002,List.replicate 8 0⟩ ∧ Built two_records ∧ ¬ Keeps two_records 1 5 := by
  refine ⟨by decide +kernel,by decide +kernel,two_records_built,fun keeps => ?_⟩
  have room : HasRoom two_records 24 5 := show _ % _ ≤ _ by decide
  have fits := fits_of_keeps two_records_built (by decide) keeps two_records_first room
  exact absurd fits.rounding (by decide)

end UBoot.BloblistResize
