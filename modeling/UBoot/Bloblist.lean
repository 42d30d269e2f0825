import UBoot.Runs
import UBoot.Words

/-!
The blob list of `common/bloblist.c`: a header and then records, one behind the
other, each with a tag, a size and its data. `bloblist_addrec` says where the
next record goes and `bloblist_next_blob` where it is looked for. The list of
the records that were placed is kept beside the bytes as history, and the walk
over the bytes is compared with it.
-/
namespace UBoot.Bloblist
open UBoot.Memory UBoot.Runs UBoot.Words List
set_option linter.dupNamespace false

def ENOSPC : Int := 28
def EFAULT : Int := 14
def ESPIPE : Int := 29

def BLOBLIST_BLOB_ALIGN_LOG2 : Nat := 3
def BLOBLIST_ALIGN : Nat := 8
def BLOBLISTT_VOID : Nat := 0
def BLOBLISTR_HDR_SIZE_SHIFT : Nat := 24
/-- `sizeof(struct bloblist_hdr)`, which is also `hdr->hdr_size`. -/
def BLOBLIST_HDR_SIZE : Nat := 24
def BLOBLIST_REC_HDR_SIZE : Nat := 8

/-- History: a record that an addition placed, with the offset it was given and
    the alignment it was added with. -/
structure Placed where
  off : Nat
  tag : Nat
  size : Nat
  align_log2 : Nat

/-- A blob list: the address of its header, the fields of the header that are
    read, the bytes from the header on, and the records placed so far. -/
structure Bloblist where
  addr : Nat
  used_size : Nat
  total_size : Nat
  align_log2 : Nat
  mem : Nat → UInt8
  placed : List Placed

def tag_and_hdr_size (b : Bloblist) (rec : Nat) : Nat := word b.mem rec
def rec_size (b : Bloblist) (rec : Nat) : Nat := word b.mem (rec+4)
def rec_hdr_size (b : Bloblist) (rec : Nat) : Nat := tag_and_hdr_size b rec/2^BLOBLISTR_HDR_SIZE_SHIFT
def rec_tag (b : Bloblist) (rec : Nat) : Nat := tag_and_hdr_size b rec%2^BLOBLISTR_HDR_SIZE_SHIFT

def bloblist_first_blob (b : Bloblist) : Option Nat :=
  if b.used_size ≤ BLOBLIST_HDR_SIZE then none else some BLOBLIST_HDR_SIZE

/-- Where a record ends. No value when the shift by `hdr->align_log2` leaves
    the `int`. All sums stay below 2^34, far inside a `ulong`. -/
def bloblist_blob_end_ofs (b : Bloblist) (rec : Nat) : Option Nat :=
  if b.align_log2 < 32 then
    let offset := rec+rec_hdr_size b rec+rec_size b rec
    some (roundUp (offset+rec_hdr_size b rec) (2^b.align_log2)-rec_hdr_size b rec)
  else none

/-- The next record, `some none` for the end of the list. -/
def bloblist_next_blob (b : Bloblist) (rec : Nat) : Option (Option Nat) :=
  (bloblist_blob_end_ofs b rec).map fun offset => if b.used_size ≤ offset then none else some offset

/-- The loop of `bloblist_findrec` for so many rounds, from a record on. No
    result when it is still going then. -/
def find_from (b : Bloblist) (tag : Nat) : Nat → Option Nat → Option (Option Nat)
  | _, none => some none
  | 0, some _ => none
  | rounds+1, some rec =>
    if rec_tag b rec = tag then some (some rec)
    else (bloblist_next_blob b rec).bind fun next => find_from b tag rounds next

/-- A walk never goes back, and one that does not advance never will, so
    `used_size` rounds see its end if it has one. -/
def bloblist_findrec (b : Bloblist) (tag : Nat) : Option (Option Nat) :=
  find_from b tag b.used_size (bloblist_first_blob b)

/-- `ALIGN(x, 1U << align_log2)` in an `int`. -/
def align (x : Int) (align_log2 : Nat) : Int :=
  let y := wrap (x+(2^align_log2-1))
  y-y%2^align_log2

/-- The record that `bloblist_addrec` writes at the end of the used part. -/
def write_rec (b : Bloblist) (tag size align_log2 new_alloced : Nat) : Bloblist :=
  let head := store b.mem b.used_size (le32 (tag ||| BLOBLIST_REC_HDR_SIZE <<< BLOBLISTR_HDR_SIZE_SHIFT))
  let mem := store head (b.used_size+4) (le32 size)
  let hdr_size := word mem b.used_size/2^BLOBLISTR_HDR_SIZE_SHIFT
  { b with
    mem := store mem (b.used_size+hdr_size) (List.replicate size 0)
    used_size := new_alloced
    placed := b.placed ++ [⟨b.used_size,tag,size,align_log2⟩] }

/-- The total that is used once a record is added at the end of the used part. -/
def new_alloced (b : Bloblist) (size align_log2 : Nat) : Int :=
  (b.used_size+BLOBLIST_REC_HDR_SIZE+align size align_log2)%2^64

/-- The end of `bloblist_addrec`, where the data is aligned: the return code and
    the record, and the list after the call. -/
def addrec_here (b : Bloblist) (tag size align_log2 : Nat) : (Int × Nat) × Bloblist :=
  if new_alloced b size align_log2 > b.total_size then ((-ENOSPC,0),b)
  else ((0,b.used_size),write_rec b tag size align_log2 (new_alloced b size align_log2).toNat)

/-- `bloblist_addrec` with so many levels of recursion. The padding record asks
    for the default alignment of 8: behind a used part that is not a multiple of
    8 it would need the same padding again, at every level. No result then, and
    none for a shift by 32 and more. -/
def addrec_from : Nat → Bloblist → Nat → Nat → Nat → Option ((Int × Nat) × Bloblist)
  | 0, _, _, _, _ => none
  | depth+1, b, tag, size, align_log2 =>
    let align_log2 := if align_log2 = 0 then BLOBLIST_BLOB_ALIGN_LOG2 else align_log2
    let aligned_start := padding (b.addr+b.used_size+BLOBLIST_REC_HDR_SIZE) (2^align_log2)
    if 32 ≤ align_log2 then none
    else if aligned_start = 0 then some (addrec_here b tag size align_log2)
    else if aligned_start < BLOBLIST_REC_HDR_SIZE then none
    else
      match addrec_from depth b BLOBLISTT_VOID (aligned_start-BLOBLIST_REC_HDR_SIZE) 0 with
      | none => none
      | some ((ret,_),after) =>
        if ret ≠ 0 then some ((ret,0),after) else some (addrec_here after tag size align_log2)

def bloblist_addrec (b : Bloblist) (tag size align_log2 : Nat) : Option ((Int × Nat) × Bloblist) :=
  addrec_from 2 b tag size align_log2

def bloblist_ensurerec (b : Bloblist) (tag size align_log2 : Nat) : Option ((Int × Nat) × Bloblist) := do
  match ← bloblist_findrec b tag with
  | some rec => if size ≠ 0 ∧ size ≠ rec_size b rec then some ((-ESPIPE,rec),b) else some ((0,rec),b)
  | none => bloblist_addrec b tag size align_log2

/-- `bloblist_new` over memory that holds any bytes. -/
def bloblist_new (addr size align_log2 : Nat) (mem : Nat → UInt8) : Except Int Bloblist :=
  if size < BLOBLIST_HDR_SIZE then .error (-ENOSPC)
  else if addr%BLOBLIST_ALIGN ≠ 0 then .error (-EFAULT)
  else
    let hdr_align := if align_log2 ≠ 0 then align_log2 else BLOBLIST_BLOB_ALIGN_LOG2
    .ok ⟨addr,BLOBLIST_HDR_SIZE,size,hdr_align%2^8,mem,[]⟩

/-- The bytes at a placed record say what was placed, and its data is aligned. -/
structure RecordAt (b : Bloblist) (r : Placed) : Prop where
  tag : rec_tag b r.off = r.tag
  size : rec_size b r.off = r.size
  aligned : 2^r.align_log2 ∣ b.addr+r.off+rec_hdr_size b r.off

/-- The records lie behind one another from an offset to an offset, each ending
    where the next one begins. -/
def Chain (b : Bloblist) : Nat → List Placed → Nat → Prop
  | off, [], stop => off = stop
  | off, r :: rest, stop => r.off = off ∧ RecordAt b r ∧
      ∃ next, bloblist_blob_end_ofs b off = some next ∧ off+BLOBLIST_REC_HDR_SIZE ≤ next ∧ Chain b next rest stop

variable {after b b' : Bloblist} {align_log2 off rec size stop tag : Nat} {placed : List Placed}

theorem chain_length (chain : Chain b off placed stop) :
    off+8*placed.length ≤ stop := by
  induction placed generalizing off with
  | nil => exact le_of_eq chain
  | cons r rest ih =>
    obtain ⟨_,_,next,_,grows,later⟩ := chain
    have := ih later
    unfold BLOBLIST_REC_HDR_SIZE at grows
    simp only [length_cons]
    omega

theorem chain_append {first second : List Placed} {off mid stop : Nat} (one : Chain b off first mid)
    (two : Chain b mid second stop) : Chain b off (first ++ second) stop := by
  induction first generalizing off with
  | nil => obtain rfl : off = mid := one; exact two
  | cons r rest ih =>
    obtain ⟨at_,record,next,ends,grows,later⟩ := one
    exact ⟨at_,record,next,ends,grows,ih later⟩

/-- The second list has the bytes of the first one below an offset. -/
structure Agrees (b b' : Bloblist) (below : Nat) : Prop where
  addr : b'.addr = b.addr
  align_log2 : b'.align_log2 = b.align_log2
  bytes : ∀ i, i < below → b'.mem i = b.mem i

theorem word_agrees {below a : Nat} (agrees : Agrees b b' below) (inside : a+4 ≤ below) :
    word b'.mem a = word b.mem a := by
  apply word_congr
  intro i less
  exact agrees.bytes (a+i) (by omega)

theorem record_agrees {below : Nat} (agrees : Agrees b b' below) (rec : Nat) (inside : rec+8 ≤ below) :
    rec_tag b' rec = rec_tag b rec ∧ rec_hdr_size b' rec = rec_hdr_size b rec ∧ rec_size b' rec = rec_size b rec ∧
      bloblist_blob_end_ofs b' rec = bloblist_blob_end_ofs b rec := by
  have head : word b'.mem rec = word b.mem rec := word_agrees agrees (by omega)
  have length : word b'.mem (rec+4) = word b.mem (rec+4) := word_agrees agrees (by omega)
  have align := agrees.align_log2
  simp only [bloblist_blob_end_ofs,rec_tag,rec_hdr_size,rec_size,tag_and_hdr_size,head,length,align]
  exact ⟨trivial,trivial,trivial,trivial⟩

theorem chain_agrees (agrees : Agrees b b' stop)
    (chain : Chain b off placed stop) : Chain b' off placed stop := by
  induction placed generalizing off with
  | nil => exact chain
  | cons r rest ih =>
    obtain ⟨rfl,record,next,ends,grows,later⟩ := chain
    have bound := chain_length later
    unfold BLOBLIST_REC_HDR_SIZE at grows
    obtain ⟨tag,hdr,size,same⟩ := record_agrees agrees r.off (by omega)
    refine ⟨rfl,⟨tag.trans record.tag,size.trans record.size,?_⟩,next,same.trans ends,grows,ih later⟩
    rw [agrees.addr,hdr]
    exact record.aligned

/-- The walk from a record on ends after exactly these records. -/
inductive Visits (b : Bloblist) : Option Nat → List Nat → Prop
  | done : Visits b none []
  | record {rec : Nat} {next : Option Nat} {rest : List Nat} (step : bloblist_next_blob b rec = some next)
      (later : Visits b next rest) : Visits b (some rec) (rec :: rest)

def record_from (b : Bloblist) (off : Nat) : Option Nat := if b.used_size ≤ off then none else some off

theorem next_blob_eq {rec next : Nat} (ends : bloblist_blob_end_ofs b rec = some next) :
    bloblist_next_blob b rec = some (record_from b next) := by
  rw [bloblist_next_blob,ends]
  rfl

theorem chain_visits (chain : Chain b off placed b.used_size) :
    Visits b (record_from b off) (placed.map Placed.off) := by
  induction placed generalizing off with
  | nil =>
    obtain rfl : off = b.used_size := chain
    rw [record_from,if_pos le_rfl]
    exact .done
  | cons r rest ih =>
    have bound := chain_length chain
    obtain ⟨rfl,_,next,ends,_,later⟩ := chain
    simp only [length_cons] at bound
    rw [record_from,if_neg (by omega)]
    exact .record (next_blob_eq ends) (ih later)

theorem visits_behind {off mid : Nat} {more : List Nat}
    (chain : Chain b off placed mid) (inside : mid < b.used_size)
    (visits : Visits b (record_from b off) (placed.map Placed.off ++ more)) : Visits b (some mid) more := by
  induction placed generalizing off with
  | nil =>
    obtain rfl : off = mid := chain
    rw [record_from,if_neg (by omega)] at visits
    exact visits
  | cons r rest ih =>
    have bound := chain_length chain
    obtain ⟨rfl,_,next,ends,_,later⟩ := chain
    simp only [length_cons] at bound
    rw [record_from,if_neg (by omega)] at visits
    cases visits with
    | record step rest_visits =>
      rw [next_blob_eq ends] at step
      cases step
      exact ih later rest_visits

theorem chain_last (chain : Chain b off placed stop) {r : Placed}
    (last : placed.getLast? = some r) : bloblist_blob_end_ofs b r.off = some stop := by
  induction placed generalizing off with
  | nil => contradiction
  | cons first rest ih =>
    obtain ⟨rfl,_,next,ends,_,later⟩ := chain
    cases rest with
    | nil =>
      cases last
      obtain rfl : next = stop := later
      exact ends
    | cons second rest => exact ih later (by simpa using last)

theorem chain_records (chain : Chain b off placed stop) :
    ∀ r ∈ placed, RecordAt b r := by
  induction placed generalizing off with
  | nil => simp
  | cons first rest ih =>
    obtain ⟨_,record,next,_,_,later⟩ := chain
    intro r member
    rcases mem_cons.mp member with rfl | member
    · exact record
    · exact ih later r member

theorem chain_find (chain : Chain b off placed b.used_size)
    (tag : Nat) {rounds : Nat} (enough : placed.length ≤ rounds) :
    find_from b tag rounds (record_from b off) = some ((placed.find? (fun r => r.tag = tag)).map Placed.off) := by
  induction placed generalizing off rounds with
  | nil =>
    obtain rfl : off = b.used_size := chain
    rw [record_from,if_pos le_rfl]
    simp [find_from]
  | cons r rest ih =>
    have bound := chain_length chain
    obtain ⟨rfl,record,next,ends,_,later⟩ := chain
    simp only [length_cons] at bound enough
    obtain ⟨left,rfl⟩ : ∃ left, rounds = left+1 := ⟨rounds-1,by omega⟩
    rw [record_from,if_neg (by omega),find_from,record.tag]
    by_cases found : r.tag = tag
    · simp [found]
    · rw [if_neg found,next_blob_eq ends,Option.bind_some,ih later (by omega)]
      simp [found]

theorem head_word_lt (small : tag < 2^32) :
    (tag ||| BLOBLIST_REC_HDR_SIZE <<< BLOBLISTR_HDR_SIZE_SHIFT) < 2^32 :=
  Nat.or_lt_two_pow small (by decide)

/-- A tag of 24 bits leaves the header size alone. -/
theorem head_word_eq (small : tag < 2^24) :
    (tag ||| BLOBLIST_REC_HDR_SIZE <<< BLOBLISTR_HDR_SIZE_SHIFT) = 8*2^24+tag := by
  have same := Nat.two_pow_add_eq_or_of_lt small 8
  rw [Nat.or_comm,show BLOBLIST_REC_HDR_SIZE <<< BLOBLISTR_HDR_SIZE_SHIFT = 2^24*8 from rfl,← same]
  omega

theorem write_rec_words (b : Bloblist) (align_log2 n : Nat) (tagSmall : tag < 2^32)
    (sizeSmall : size < 2^32) :
    word (write_rec b tag size align_log2 n).mem b.used_size =
        (tag ||| BLOBLIST_REC_HDR_SIZE <<< BLOBLISTR_HDR_SIZE_SHIFT) ∧
      word (write_rec b tag size align_log2 n).mem (b.used_size+4) = size ∧
      ∀ i, i < b.used_size → (write_rec b tag size align_log2 n).mem i = b.mem i := by
  set w := tag ||| BLOBLIST_REC_HDR_SIZE <<< BLOBLISTR_HDR_SIZE_SHIFT with wIs
  have wSmall : w < 2^32 := head_word_lt tagSmall
  have wLarge : 8*2^24 ≤ w := Nat.right_le_or
  set head := store b.mem b.used_size (le32 w) with headIs
  set mem := store head (b.used_size+4) (le32 size) with memIs
  have first : word mem b.used_size = w := by
    rw [memIs,word_store_apart head (.inl le_rfl),headIs,word_store wSmall]
  have second : word mem (b.used_size+4) = size := by rw [memIs,word_store sizeSmall]
  have written : (write_rec b tag size align_log2 n).mem =
      store mem (b.used_size+w/2^24) (replicate size 0) := by
    have hdr : word mem b.used_size/2^BLOBLISTR_HDR_SIZE_SHIFT = w/2^24 := by rw [first]; rfl
    rw [← hdr]
    rfl
  -- The data starts behind both words, whatever the tag did to the header size.
  refine ⟨?_,?_,?_⟩
  · rw [written,word_store_apart mem (.inl (by omega)),first]
  · rw [written,word_store_apart mem (.inl (by omega)),second]
  · intro i before
    rw [written,store_below _ _ (by omega),memIs,store_below _ _ (by omega),headIs,store_below _ _ before]

theorem write_rec_agrees (b : Bloblist) (align_log2 n : Nat) (tagSmall : tag < 2^32)
    (sizeSmall : size < 2^32) : Agrees b (write_rec b tag size align_log2 n) b.used_size :=
  ⟨rfl,rfl,(write_rec_words b align_log2 n tagSmall sizeSmall).2.2⟩

theorem write_rec_record (b : Bloblist) (align_log2 n : Nat) (tagSmall : tag < 2^24)
    (sizeSmall : size < 2^32) :
    rec_tag (write_rec b tag size align_log2 n) b.used_size = tag ∧
      rec_hdr_size (write_rec b tag size align_log2 n) b.used_size = BLOBLIST_REC_HDR_SIZE ∧
      rec_size (write_rec b tag size align_log2 n) b.used_size = size := by
  obtain ⟨head,length,_⟩ := write_rec_words b align_log2 n (show tag < 2^32 by omega) sizeSmall
  rw [head_word_eq tagSmall] at head
  refine ⟨?_,?_,length⟩
  · rw [rec_tag,tag_and_hdr_size,head]
    unfold BLOBLISTR_HDR_SIZE_SHIFT
    omega
  · rw [rec_hdr_size,tag_and_hdr_size,head]
    unfold BLOBLISTR_HDR_SIZE_SHIFT BLOBLIST_REC_HDR_SIZE
    omega

/-- Where a record with a header of 8 bytes ends for the walk. -/
theorem end_ofs_eq {rec end_ : Nat} (hdr : rec_hdr_size b rec = BLOBLIST_REC_HDR_SIZE) :
    bloblist_blob_end_ofs b rec = some end_ ↔
      b.align_log2 < 32 ∧ end_+8 = roundUp (rec+16+rec_size b rec) (2^b.align_log2) := by
  have large := le_roundUp (rec+16+rec_size b rec) (Nat.two_pow_pos b.align_log2)
  have sum : rec+BLOBLIST_REC_HDR_SIZE+rec_size b rec+BLOBLIST_REC_HDR_SIZE = rec+16+rec_size b rec := by
    unfold BLOBLIST_REC_HDR_SIZE; omega
  simp only [bloblist_blob_end_ofs,hdr,sum]
  by_cases defined_ : b.align_log2 < 32
  · simp only [defined_,if_true,Option.some.injEq,true_and]
    unfold BLOBLIST_REC_HDR_SIZE
    omega
  · simp [defined_]

/-- A blob list in good order: its header is aligned, the used part is a
    multiple of 8 inside the whole, and the records fill it. -/
structure Sound (b : Bloblist) : Prop where
  base : 8 ∣ b.addr
  used : 8 ∣ b.used_size
  start : BLOBLIST_HDR_SIZE ≤ b.used_size
  within : b.used_size ≤ b.total_size
  small : b.total_size < 2^32
  chain : Chain b BLOBLIST_HDR_SIZE b.placed b.used_size

theorem write_rec_sound (sound : Sound b) {tag size align_log2 n : Nat} (tagSmall : tag < 2^24)
    (sizeSmall : size < 2^32) (aligned : 2^align_log2 ∣ b.addr+b.used_size+BLOBLIST_REC_HDR_SIZE)
    (defined_ : b.align_log2 < 32) (ends : n+8 = roundUp (b.used_size+16+size) (2^b.align_log2)) (eight : 8 ∣ n)
    (fits : n ≤ b.total_size) : Sound (write_rec b tag size align_log2 n) := by
  obtain ⟨tag_,hdr,size_⟩ := write_rec_record b align_log2 n tagSmall sizeSmall
  have large := le_roundUp (b.used_size+16+size) (Nat.two_pow_pos b.align_log2)
  have start := sound.start
  have here : Chain (write_rec b tag size align_log2 n) b.used_size [⟨b.used_size,tag,size,align_log2⟩] n := by
    refine ⟨rfl,⟨tag_,size_,?_⟩,n,?_,?_,rfl⟩
    · rw [hdr]
      exact aligned
    · rw [end_ofs_eq hdr,size_]
      exact ⟨defined_,ends⟩
    · unfold BLOBLIST_REC_HDR_SIZE
      omega
  refine ⟨sound.base,eight,?_,fits,sound.small,?_⟩
  · change BLOBLIST_HDR_SIZE ≤ n
    omega
  · have old := chain_agrees (write_rec_agrees b align_log2 n (show tag < 2^32 by omega) sizeSmall) sound.chain
    exact chain_append old here

theorem align_dvd (x : Int) (align_log2 : Nat) : (2^align_log2 : Int) ∣ align x align_log2 := by
  unfold align
  exact Int.dvd_self_sub_emod

theorem align_eight (small : size+7 ≤ intMax) (multiple : 8 ∣ size) : align size 3 = size := by
  have same : wrap ((size : Int)+(2^3-1)) = ((size+7 : Nat) : Int) := by
    rw [← wrap_of_int small]
    push_cast
    rfl
  simp only [align,same]
  omega

theorem align_bounds (x : Int) (defined_ : align_log2 < 32) :
    -2^32 < align x align_log2 ∧ align x align_log2 < 2^31 := by
  have low := le_wrap (x+(2^align_log2-1))
  have high := wrap_le (x+(2^align_log2-1))
  have positive : (0 : Int) < 2^align_log2 := by positivity
  have limited : (2 : Int)^align_log2 ≤ 2^31 := pow_le_pow_right₀ (by decide) (by omega)
  have rest := Int.emod_nonneg (wrap (x+(2^align_log2-1))) (ne_of_gt positive)
  unfold intMax at high
  simp only [align]
  omega

def effective (align_log2 : Nat) : Nat := if align_log2 = 0 then BLOBLIST_BLOB_ALIGN_LOG2 else align_log2

def gap (b : Bloblist) (align_log2 : Nat) : Nat :=
  padding (b.addr+b.used_size+BLOBLIST_REC_HDR_SIZE) (2^effective align_log2)

/-- The list with the padding record that an addition needs. -/
def padded (b : Bloblist) (align_log2 : Nat) : Bloblist :=
  if gap b align_log2 = 0 then b
  else write_rec b BLOBLISTT_VOID (gap b align_log2-BLOBLIST_REC_HDR_SIZE) BLOBLIST_BLOB_ALIGN_LOG2
    (b.used_size+gap b align_log2)

theorem effective_ge (asked : align_log2 = 0 ∨ 3 ≤ align_log2) : 3 ≤ effective align_log2 := by
  unfold effective BLOBLIST_BLOB_ALIGN_LOG2
  split <;> omega

theorem eight_dvd_pow {k : Nat} (large : 3 ≤ k) : 8 ∣ 2^k := pow_dvd_pow 2 large

theorem gap_facts (sound : Sound b) (asked : align_log2 = 0 ∨ 3 ≤ align_log2) :
    8 ∣ gap b align_log2 ∧ gap b align_log2 < 2^effective align_log2 ∧
      2^effective align_log2 ∣ b.addr+(b.used_size+gap b align_log2)+BLOBLIST_REC_HDR_SIZE := by
  have positive := Nat.two_pow_pos (effective align_log2)
  have whole := dvd_add_padding (b.addr+b.used_size+BLOBLIST_REC_HDR_SIZE) positive
  have eight : 8 ∣ b.addr+b.used_size+BLOBLIST_REC_HDR_SIZE :=
    dvd_add (dvd_add sound.base sound.used) (by decide)
  refine ⟨?_,padding_lt _ positive,?_⟩
  · exact (Nat.dvd_add_right eight).mp (dvd_trans (eight_dvd_pow (effective_ge asked)) whole)
  · rw [show b.addr+(b.used_size+gap b align_log2)+BLOBLIST_REC_HDR_SIZE =
      b.addr+b.used_size+BLOBLIST_REC_HDR_SIZE+gap b align_log2 by omega]
    exact whole

theorem padded_fields (b : Bloblist) (align_log2 : Nat) :
    (padded b align_log2).addr = b.addr ∧ (padded b align_log2).used_size = b.used_size+gap b align_log2 ∧
      (padded b align_log2).total_size = b.total_size ∧ (padded b align_log2).align_log2 = b.align_log2 := by
  unfold padded
  by_cases none_ : gap b align_log2 = 0
  · rw [if_pos none_,none_]
    exact ⟨rfl,rfl,rfl,rfl⟩
  · rw [if_neg none_]
    exact ⟨rfl,rfl,rfl,rfl⟩

/-- One level of the recursion, by the padding that the record needs. -/
theorem addrec_step (depth : Nat) (b : Bloblist) (tag size align_log2 : Nat) :
    addrec_from (depth+1) b tag size align_log2 =
      if 32 ≤ effective align_log2 then none
      else if gap b align_log2 = 0 then some (addrec_here b tag size (effective align_log2))
      else if gap b align_log2 < BLOBLIST_REC_HDR_SIZE then none
      else (addrec_from depth b BLOBLISTT_VOID (gap b align_log2-BLOBLIST_REC_HDR_SIZE) 0).bind fun r =>
        if r.1.1 ≠ 0 then some ((r.1.1,0),r.2) else some (addrec_here r.2 tag size (effective align_log2)) := by
  rw [addrec_from]
  cases inner : addrec_from depth b BLOBLISTT_VOID (gap b align_log2-BLOBLIST_REC_HDR_SIZE) 0 with
  | none | some r =>
    unfold gap effective at inner
    simp only [inner]
    rfl

/-- A record that starts where no padding is needed. -/
theorem addrec_flush (depth tag size : Nat) (defined_ : effective align_log2 < 32)
    (flush : gap b align_log2 = 0) :
    addrec_from (depth+1) b tag size align_log2 = some (addrec_here b tag size (effective align_log2)) := by
  rw [addrec_step,if_neg (by omega),if_pos flush]

/-- A record that needs padding before it. -/
theorem addrec_behind {b mid : Bloblist} (depth tag size : Nat) {ret : Int} {vrec : Nat}
    (defined_ : effective align_log2 < 32) (wide : BLOBLIST_REC_HDR_SIZE ≤ gap b align_log2)
    (inner : addrec_from depth b BLOBLISTT_VOID (gap b align_log2-BLOBLIST_REC_HDR_SIZE) 0 = some ((ret,vrec),mid)) :
    addrec_from (depth+1) b tag size align_log2 =
      if ret ≠ 0 then some ((ret,0),mid) else some (addrec_here mid tag size (effective align_log2)) := by
  have some_gap : ¬ gap b align_log2 = 0 := by unfold BLOBLIST_REC_HDR_SIZE at wide; omega
  rw [addrec_step,if_neg (by omega),if_neg some_gap,if_neg (by omega),inner,Option.bind_some]

/-- A padding record whose size is a multiple of 8 ends where the record begins,
    and is added when it ends inside the list. -/
theorem padding_result {b : Bloblist} {align_log2 : Nat} (within : b.used_size ≤ b.total_size)
    (small : b.total_size < 2^32) (flush : gap b 0 = 0) (eight : 8 ∣ gap b align_log2) (some_gap : gap b align_log2 ≠ 0)
    (short : gap b align_log2 < 2^31) :
    addrec_from 1 b BLOBLISTT_VOID (gap b align_log2-BLOBLIST_REC_HDR_SIZE) 0 =
      some (if b.total_size < b.used_size+gap b align_log2 then ((-ENOSPC,0),b)
        else ((0,b.used_size),padded b align_log2)) := by
  have rounded : align ((gap b align_log2-BLOBLIST_REC_HDR_SIZE : Nat) : Int) 3 =
      ((gap b align_log2-BLOBLIST_REC_HDR_SIZE : Nat) : Int) :=
    align_eight (by unfold intMax BLOBLIST_REC_HDR_SIZE; omega) (by unfold BLOBLIST_REC_HDR_SIZE; omega)
  have total : new_alloced b (gap b align_log2-BLOBLIST_REC_HDR_SIZE) (effective 0) =
      ((b.used_size+gap b align_log2 : Nat) : Int) := by
    unfold new_alloced
    rw [show effective 0 = 3 from rfl,rounded]
    unfold BLOBLIST_REC_HDR_SIZE at *
    omega
  rw [addrec_flush 0 _ _ (by decide) flush,addrec_here,total]
  by_cases full : b.total_size < b.used_size+gap b align_log2
  · rw [if_pos full,if_pos (by exact_mod_cast full)]
  · rw [if_neg full,if_neg (by exact_mod_cast full),padded,if_neg some_gap]
    rfl

theorem addrec_success (sound : Sound b)
    (asked : align_log2 = 0 ∨ 3 ≤ align_log2) (runs : bloblist_addrec b tag size align_log2 = some ((0,rec),after)) :
    ∃ n : Nat, (n : Int) = b.used_size+gap b align_log2+8+align size (effective align_log2) ∧ n ≤ b.total_size ∧
      b.used_size+gap b align_log2 ≤ b.total_size ∧ effective align_log2 < 32 ∧
      after = write_rec (padded b align_log2) tag size (effective align_log2) n := by
  have within := sound.within
  have small := sound.small
  have defined_ : effective align_log2 < 32 := by
    by_contra large
    rw [bloblist_addrec,addrec_step,if_pos (not_lt.mp large)] at runs
    contradiction
  -- The end of the addition, from the list with its padding.
  have finish {mid : Bloblist} (total : mid.total_size = b.total_size) (bound : mid.used_size ≤ b.total_size)
      (ends : addrec_here mid tag size (effective align_log2) = ((0,rec),after)) :
      ∃ n : Nat, (n : Int) = mid.used_size+8+align size (effective align_log2) ∧ n ≤ b.total_size ∧
        after = write_rec mid tag size (effective align_log2) n := by
    unfold addrec_here at ends
    split at ends
    · simp [ENOSPC] at ends
    · rename_i fits
      have limit : new_alloced mid size (effective align_log2) ≤ b.total_size := by omega
      have positive : 0 ≤ new_alloced mid size (effective align_log2) := Int.emod_nonneg _ (by decide)
      obtain ⟨n,same⟩ := Int.eq_ofNat_of_zero_le positive
      rw [same] at ends limit
      refine ⟨n,?_,by omega,(Prod.mk.inj ends).2.symm⟩
      have bounds := align_bounds size defined_
      unfold new_alloced BLOBLIST_REC_HDR_SIZE at same
      omega
  unfold bloblist_addrec at runs
  by_cases flush : gap b align_log2 = 0
  · rw [addrec_flush 1 tag size defined_ flush] at runs
    obtain ⟨n,value,fits,same⟩ := finish rfl within (Option.some.inj runs)
    refine ⟨n,by rw [value,flush]; push_cast; ring,fits,by omega,defined_,?_⟩
    rw [padded,if_pos flush]
    exact same
  obtain ⟨eight,less,_⟩ := gap_facts sound asked
  have limited : (2 : Nat)^effective align_log2 ≤ 2^31 := Nat.pow_le_pow_right (by decide) (by omega)
  have inner : gap b 0 = 0 := padding_eq_zero (dvd_add (dvd_add sound.base sound.used) (by decide))
  have wide : BLOBLIST_REC_HDR_SIZE ≤ gap b align_log2 := by unfold BLOBLIST_REC_HDR_SIZE; omega
  have first := padding_result within small inner eight flush (by omega)
  by_cases full : b.total_size < b.used_size+gap b align_log2
  · rw [if_pos full] at first
    rw [addrec_behind 1 tag size defined_ wide first] at runs
    simp [ENOSPC] at runs
  · rw [if_neg full] at first
    rw [addrec_behind 1 tag size defined_ wide first] at runs
    obtain ⟨_,used,same_total,_⟩ := padded_fields b align_log2
    have room : b.used_size+gap b align_log2 ≤ b.total_size := by omega
    obtain ⟨n,value,fits,same⟩ := finish same_total (used.symm ▸ room) (Option.some.inj runs)
    exact ⟨n,by rw [value,used]; push_cast; ring,fits,room,defined_,same⟩

/-- The record lies where the walk looks for it: its tag has 24 bits, the end of
    a padding record before it and its own end are those that the walk computes
    from the alignment of the header. -/
structure AddFits (b : Bloblist) (tag size align_log2 : Nat) : Prop where
  tag : tag < 2^24
  defined_ : b.align_log2 < 32
  padding : gap b align_log2 = 0 ∨ 2^b.align_log2 ∣ b.used_size+gap b align_log2+8
  ends : (b.used_size+gap b align_log2+16 : Int)+align size (effective align_log2) =
    roundUp (b.used_size+gap b align_log2+16+size) (2^b.align_log2)

/-- A blob list that can be walked: the walk ends after exactly the records that
    were placed, at the end of the used part; each record says what was placed,
    and its data is aligned. -/
structure Walkable (b : Bloblist) : Prop where
  visits : Visits b (bloblist_first_blob b) (b.placed.map Placed.off)
  ends : match b.placed.getLast? with
    | none => b.used_size = BLOBLIST_HDR_SIZE
    | some r => bloblist_blob_end_ofs b r.off = some b.used_size
  records : ∀ r ∈ b.placed, RecordAt b r
  within : b.used_size ≤ b.total_size

theorem walkable_of_sound (sound : Sound b) : Walkable b := by
  refine ⟨chain_visits sound.chain,?_,chain_records sound.chain,sound.within⟩
  cases last : b.placed.getLast? with
  | none =>
    have chain := sound.chain
    rw [getLast?_eq_none_iff.mp last] at chain
    exact Eq.symm chain
  | some r => exact chain_last sound.chain last

theorem padded_sound (sound : Sound b) (asked : align_log2 = 0 ∨ 3 ≤ align_log2)
    (small : effective align_log2 < 32) (defined_ : b.align_log2 < 32)
    (fits : gap b align_log2 = 0 ∨ 2^b.align_log2 ∣ b.used_size+gap b align_log2+8)
    (room : b.used_size+gap b align_log2 ≤ b.total_size) : Sound (padded b align_log2) := by
  unfold padded
  by_cases flush : gap b align_log2 = 0
  · rw [if_pos flush]
    exact sound
  rw [if_neg flush]
  obtain ⟨eight,less,_⟩ := gap_facts sound asked
  have limited : (2 : Nat)^effective align_log2 ≤ 2^31 := Nat.pow_le_pow_right (by decide) (by omega)
  have exact_ := (roundUp_eq_self (Nat.two_pow_pos b.align_log2)).mpr (fits.resolve_left flush)
  have sum : b.used_size+16+(gap b align_log2-BLOBLIST_REC_HDR_SIZE) = b.used_size+gap b align_log2+8 := by
    unfold BLOBLIST_REC_HDR_SIZE; omega
  refine write_rec_sound sound (by decide) (by unfold BLOBLIST_REC_HDR_SIZE; omega) ?_ defined_ ?_
    (dvd_add sound.used eight) room
  · exact dvd_add (dvd_add sound.base sound.used) (by decide)
  · rw [sum,exact_]

theorem addrec_sound (sound : Sound b)
    (asked : align_log2 = 0 ∨ 3 ≤ align_log2) (int : size ≤ intMax)
    (runs : bloblist_addrec b tag size align_log2 = some ((0,rec),after)) (fits : AddFits b tag size align_log2) :
    Sound after := by
  obtain ⟨n,value,bound,room,small,rfl⟩ := addrec_success sound asked runs
  obtain ⟨_,_,aligned⟩ := gap_facts sound asked
  obtain ⟨addr,used,total,hdr⟩ := padded_fields b align_log2
  have mid := padded_sound sound asked small fits.defined_ fits.padding room
  have ends := fits.ends
  have eight : (8 : Int) ∣ align size (effective align_log2) :=
    Int.dvd_trans (by exact_mod_cast eight_dvd_pow (effective_ge asked)) (align_dvd size (effective align_log2))
  have multiple := mid.used
  unfold intMax at int
  refine write_rec_sound mid fits.tag (by omega) ?_ ?_ ?_ ?_ ?_
  · rw [addr,used]
    exact aligned
  · rw [hdr]
    exact fits.defined_
  · rw [used,hdr]
    omega
  · rw [used] at multiple
    omega
  · rw [total]
    exact bound

theorem padded_record (sound : Sound b) (asked : align_log2 = 0 ∨ 3 ≤ align_log2)
    (small : effective align_log2 < 32) (wide : gap b align_log2 ≠ 0) :
    (padded b align_log2).placed = b.placed ++
        [⟨b.used_size,BLOBLISTT_VOID,gap b align_log2-BLOBLIST_REC_HDR_SIZE,BLOBLIST_BLOB_ALIGN_LOG2⟩] ∧
      8 ≤ gap b align_log2 ∧ Agrees b (padded b align_log2) b.used_size ∧
      rec_hdr_size (padded b align_log2) b.used_size = BLOBLIST_REC_HDR_SIZE ∧
      rec_size (padded b align_log2) b.used_size = gap b align_log2-BLOBLIST_REC_HDR_SIZE := by
  obtain ⟨eight,less,_⟩ := gap_facts sound asked
  have limited : (2 : Nat)^effective align_log2 ≤ 2^31 := Nat.pow_le_pow_right (by decide) (by omega)
  have sizeSmall : gap b align_log2-BLOBLIST_REC_HDR_SIZE < 2^32 := by unfold BLOBLIST_REC_HDR_SIZE; omega
  have written := write_rec_record b BLOBLIST_BLOB_ALIGN_LOG2 (b.used_size+gap b align_log2)
    (show BLOBLISTT_VOID < 2^24 by decide) sizeSmall
  have agrees := write_rec_agrees b BLOBLIST_BLOB_ALIGN_LOG2 (b.used_size+gap b align_log2)
    (show BLOBLISTT_VOID < 2^32 by decide) sizeSmall
  rw [padded,if_neg wide]
  exact ⟨rfl,by omega,agrees,written.2.1,written.2.2⟩

theorem addrec_fits (sound : Sound b)
    (asked : align_log2 = 0 ∨ 3 ≤ align_log2) (int : size ≤ intMax) (tagSmall : tag < 2^32)
    (runs : bloblist_addrec b tag size align_log2 = some ((0,rec),after)) (walkable : Walkable after) :
    AddFits b tag size align_log2 := by
  obtain ⟨n,value,bound,room,small,same⟩ := addrec_success sound asked runs
  obtain ⟨_,used,_,hdr⟩ := padded_fields b align_log2
  have sizeSmall : size < 2^32 := by unfold intMax at int; omega
  have placed : after.placed = (padded b align_log2).placed ++
      [⟨(padded b align_log2).used_size,tag,size,effective align_log2⟩] := by rw [same]; rfl
  have afterUsed : after.used_size = n := by rw [same]; rfl
  have afterAlign : after.align_log2 = b.align_log2 := by rw [same,← hdr]; rfl
  have agrees : Agrees (padded b align_log2) after (padded b align_log2).used_size := by
    rw [same]
    exact write_rec_agrees _ _ _ tagSmall sizeSmall
  have record := walkable.records ⟨(padded b align_log2).used_size,tag,size,effective align_log2⟩
    (by rw [placed]; exact mem_append_right _ mem_cons_self)
  have tagFits : tag < 2^24 := by
    have said : rec_tag after (padded b align_log2).used_size = tag := record.tag
    rw [← said]
    exact Nat.mod_lt _ (by decide)
  obtain ⟨_,recHdr,recSize⟩ := write_rec_record (padded b align_log2) (effective align_log2) n tagFits sizeSmall
  rw [← same] at recHdr recSize
  have last := walkable.ends
  rw [placed,getLast?_append_of_ne_nil _ (by simp)] at last
  replace last : bloblist_blob_end_ofs after (padded b align_log2).used_size = some after.used_size := last
  rw [end_ofs_eq recHdr,recSize,afterAlign,afterUsed,used] at last
  obtain ⟨defined_,ends⟩ := last
  have large := le_roundUp (b.used_size+gap b align_log2+16+size) (Nat.two_pow_pos b.align_log2)
  refine ⟨tagFits,defined_,?_,by omega⟩
  by_cases flush : gap b align_log2 = 0
  · exact .inl flush
  right
  obtain ⟨midPlaced,wide,below,voidHdr,voidSize⟩ := padded_record sound asked small flush
  -- The walk passes over the old records, then over the padding record.
  have whole : Agrees b after b.used_size :=
    ⟨agrees.addr.trans below.addr,agrees.align_log2.trans below.align_log2,fun i less =>
      (agrees.bytes i (by omega)).trans (below.bytes i less)⟩
  have old := chain_agrees whole sound.chain
  have visits := walkable.visits
  rw [placed,midPlaced,append_assoc,map_append] at visits
  have behind := visits_behind old (by omega) visits
  obtain ⟨_,sameHdr,sameSize,_⟩ := record_agrees agrees b.used_size (by omega)
  cases behind with
  | record step later =>
    cases later with
    | record _ _ =>
      obtain ⟨offset,stops,goes⟩ := Option.map_eq_some_iff.mp step
      split at goes
      · contradiction
      · cases goes
        rw [end_ofs_eq (sameHdr.trans voidHdr),sameSize.trans voidSize,afterAlign,used] at stops
        rw [← roundUp_eq_self (Nat.two_pow_pos b.align_log2)]
        have sum : b.used_size+16+(gap b align_log2-BLOBLIST_REC_HDR_SIZE) = b.used_size+gap b align_log2+8 := by
          unfold BLOBLIST_REC_HDR_SIZE; omega
        rw [sum] at stops
        exact stops.2.symm

/-- The calls on the blob list; `new` is given memory that holds any bytes. -/
inductive Op where
  | new (addr size align_log2 : Nat) (mem : Nat → UInt8)
  | add (tag size align_log2 : Nat)
  | ensure_size (tag size align_log2 : Nat)

/-- The arguments that the calls take: a 32-bit tag, an `int` that is not
    negative, and an alignment of 0 or of 8 bytes and more. -/
def Asked : Op → Prop
  | .new _ size _ _ => size < 2^32
  | .add tag size align_log2 => tag < 2^32 ∧ size ≤ intMax ∧ (align_log2 = 0 ∨ 3 ≤ align_log2)
  | .ensure_size tag size align_log2 => tag < 2^32 ∧ size ≤ intMax ∧ (align_log2 = 0 ∨ 3 ≤ align_log2)

instance (op : Op) : Decidable (Asked op) :=
  match op with
  | .new _ size _ _ => inferInstanceAs (Decidable (size < 2^32))
  | .add tag size align_log2 =>
    inferInstanceAs (Decidable (tag < 2^32 ∧ size ≤ intMax ∧ (align_log2 = 0 ∨ 3 ≤ align_log2)))
  | .ensure_size tag size align_log2 =>
    inferInstanceAs (Decidable (tag < 2^32 ∧ size ≤ intMax ∧ (align_log2 = 0 ∨ 3 ≤ align_log2)))

/-- One call on `gd->bloblist`: the return code and what the pointer refers to
    then. No result before a list is made and where a call has none. -/
def step (s : Option Bloblist) : Op → Option (Int × Option Bloblist)
  | .new addr size align_log2 mem =>
    match bloblist_new addr size align_log2 mem with
    | .error code => some (code,s)
    | .ok b => some (0,some b)
  | .add tag size align_log2 =>
    s.bind fun b => (bloblist_addrec b tag size align_log2).map fun r => (r.1.1,some r.2)
  | .ensure_size tag size align_log2 =>
    s.bind fun b => (bloblist_ensurerec b tag size align_log2).map fun r => (r.1.1,some r.2)

def next (s : Option Bloblist) (op : Op) : Option Bloblist := ((step s op).map Prod.snd).getD s

def Succeeds (s : Option Bloblist) (op : Op) : Prop := Asked op ∧ ∃ after, step s op = some (0,after)

/-- The records that a call adds to those placed before: none for a new list
    and where the tag was there already; otherwise the one asked for, behind a
    padding record or not. -/
def Adds (s : Option Bloblist) (op : Op) (after : Bloblist) : Prop :=
  match op, s with
  | .new _ _ _ _, _ => after.placed = []
  | _, none => False
  | .add tag size align_log2, some b => ∃ pads rec, (∀ p ∈ pads, p.tag = BLOBLISTT_VOID) ∧
      after.placed = b.placed ++ pads ++ [⟨rec,tag,size,effective align_log2⟩]
  | .ensure_size tag size align_log2, some b => (∃ r ∈ b.placed, r.tag = tag) ∧ after.placed = b.placed ∨
      (∀ r ∈ b.placed, r.tag ≠ tag) ∧ ∃ pads rec, (∀ p ∈ pads, p.tag = BLOBLISTT_VOID) ∧
        after.placed = b.placed ++ pads ++ [⟨rec,tag,size,effective align_log2⟩]

/-- After the call the list can be walked and holds what the call adds. -/
def Walks (s : Option Bloblist) (op : Op) : Prop := ∀ after, next s op = some after → Walkable after ∧ Adds s op after

/-- The record that a call adds, if it adds one, lies where the walk looks. -/
def Fits (s : Option Bloblist) : Op → Prop
  | .new _ _ _ _ => True
  | .add tag size align_log2 => ∀ b, s = some b → AddFits b tag size align_log2
  | .ensure_size tag size align_log2 => ∀ b, s = some b → bloblist_findrec b tag = some none →
      AddFits b tag size align_log2

theorem findrec_eq (sound : Sound b) (tag : Nat) :
    bloblist_findrec b tag = some ((b.placed.find? (fun r => r.tag = tag)).map Placed.off) := by
  have bound := chain_length sound.chain
  exact chain_find sound.chain tag (by omega)

theorem addrec_adds (sound : Sound b)
    (asked : align_log2 = 0 ∨ 3 ≤ align_log2) (runs : bloblist_addrec b tag size align_log2 = some ((0,rec),after)) :
    ∃ pads rec, (∀ p ∈ pads, p.tag = BLOBLISTT_VOID) ∧
      after.placed = b.placed ++ pads ++ [⟨rec,tag,size,effective align_log2⟩] := by
  obtain ⟨n,_,_,_,small,rfl⟩ := addrec_success sound asked runs
  by_cases flush : gap b align_log2 = 0
  · refine ⟨[],b.used_size,by simp,?_⟩
    simp [write_rec,padded,flush]
  · have placed := (padded_record sound asked small flush).1
    refine ⟨[⟨b.used_size,BLOBLISTT_VOID,gap b align_log2-BLOBLIST_REC_HDR_SIZE,BLOBLIST_BLOB_ALIGN_LOG2⟩],
      (padded b align_log2).used_size,by simp,?_⟩
    rw [← placed]
    rfl

theorem new_sound {addr size align_log2 : Nat} {mem : Nat → UInt8} (small : size < 2^32)
    (made : bloblist_new addr size align_log2 mem = .ok b) : Sound b ∧ b.placed = [] := by
  unfold bloblist_new at made
  split at made
  · contradiction
  · rename_i large
    split at made
    · contradiction
    · rename_i base
      cases made
      refine ⟨⟨?_,⟨3,rfl⟩,le_rfl,by dsimp only; omega,small,rfl⟩,rfl⟩
      unfold BLOBLIST_ALIGN at base
      dsimp only
      omega

theorem step_success {s : Option Bloblist} {op : Op} (succeeds : Succeeds s op) :
    (∃ addr size align_log2 mem b, op = .new addr size align_log2 mem ∧ size < 2^32 ∧
      bloblist_new addr size align_log2 mem = .ok b ∧ next s op = some b) ∨
    (∃ tag size align_log2 b rec after, op = .add tag size align_log2 ∧ s = some b ∧
      bloblist_addrec b tag size align_log2 = some ((0,rec),after) ∧ next s op = some after) ∨
    (∃ tag size align_log2 b rec after, op = .ensure_size tag size align_log2 ∧ s = some b ∧
      bloblist_ensurerec b tag size align_log2 = some ((0,rec),after) ∧ next s op = some after) := by
  obtain ⟨asked,after,runs⟩ := succeeds
  have goes : next s op = after := by rw [next,runs]; rfl
  cases op with
  | new addr size align_log2 mem =>
    left
    simp only [step] at runs
    split at runs
    · rename_i code failed
      unfold bloblist_new at failed
      split at failed
      · cases failed; simp [ENOSPC] at runs
      · split at failed
        · cases failed; simp [EFAULT] at runs
        · contradiction
    · rename_i b made
      cases runs
      exact ⟨addr,size,align_log2,mem,b,rfl,asked,made,goes⟩
  | add tag size align_log2 =>
    right; left
    cases s with
    | none => contradiction
    | some b =>
      obtain ⟨⟨⟨ret,rec⟩,made⟩,result,same⟩ := Option.map_eq_some_iff.mp runs
      cases same
      exact ⟨tag,size,align_log2,b,rec,made,rfl,rfl,result,goes⟩
  | ensure_size tag size align_log2 =>
    right; right
    cases s with
    | none => contradiction
    | some b =>
      obtain ⟨⟨⟨ret,rec⟩,made⟩,result,same⟩ := Option.map_eq_some_iff.mp runs
      cases same
      exact ⟨tag,size,align_log2,b,rec,made,rfl,rfl,result,goes⟩

theorem ensurerec_success (sound : Sound b)
    (runs : bloblist_ensurerec b tag size align_log2 = some ((0,rec),after)) :
    (∃ r ∈ b.placed, r.tag = tag) ∧ bloblist_findrec b tag ≠ some none ∧ after = b ∨
    (∀ r ∈ b.placed, r.tag ≠ tag) ∧ bloblist_findrec b tag = some none ∧
      bloblist_addrec b tag size align_log2 = some ((0,rec),after) := by
  have found := findrec_eq sound tag
  unfold bloblist_ensurerec at runs
  rw [found] at runs
  cases first : b.placed.find? (fun r => r.tag = tag) with
  | none =>
    right
    rw [first] at found runs
    refine ⟨?_,found,runs⟩
    intro r member
    have := find?_eq_none.mp first r member
    simpa using this
  | some r =>
    left
    rw [first] at found runs
    have member := mem_of_find?_eq_some first
    have tagged := find?_some first
    refine ⟨⟨r,member,by simpa using tagged⟩,by rw [found]; simp,?_⟩
    simp only [Option.map_some,Option.bind_eq_bind,Option.bind_some] at runs
    split at runs
    · simp [ESPIPE] at runs
    · cases runs; rfl

/-- Every list that the pointer may refer to is in good order. -/
def Good (s : Option Bloblist) : Prop := ∀ b, s = some b → Sound b

/-- A successful call keeps good order and leaves a list that can be walked
    exactly when it fits. -/
theorem success_iff {s : Option Bloblist} (good : Good s) {op : Op} (succeeds : Succeeds s op) :
    (Fits s op → Good (next s op)) ∧ (Walks s op ↔ Fits s op) := by
  have asked := succeeds.1
  rcases step_success succeeds with ⟨addr,size,align_log2,mem,b,rfl,small,made,goes⟩ |
    ⟨tag,size,align_log2,b,rec,after,rfl,rfl,runs,goes⟩ | ⟨tag,size,align_log2,b,rec,after,rfl,rfl,runs,goes⟩
  · obtain ⟨sound,empty⟩ := new_sound small made
    refine ⟨fun _ b' same => ?_,fun _ => trivial,fun _ b' same => ?_⟩
    · rw [goes] at same; cases same; exact sound
    · rw [goes] at same; cases same; exact ⟨walkable_of_sound sound,empty⟩
  · have sound := good b rfl
    obtain ⟨tagSmall,int,aligned⟩ := asked
    have keeps (fits : AddFits b tag size align_log2) : Sound after := addrec_sound sound aligned int runs fits
    refine ⟨fun fits b' same => ?_,fun walks b' same => ?_,fun fits b' same => ?_⟩
    · rw [goes] at same; cases same; exact keeps (fits b rfl)
    · cases same; exact addrec_fits sound aligned int tagSmall runs (walks after goes).1
    · rw [goes] at same; cases same
      exact ⟨walkable_of_sound (keeps (fits b rfl)),addrec_adds sound aligned runs⟩
  · have sound := good b rfl
    obtain ⟨tagSmall,int,aligned⟩ := asked
    rcases ensurerec_success sound runs with ⟨there,found,rfl⟩ | ⟨absent,found,adds⟩
    · refine ⟨fun _ b' same => ?_,fun _ b' same none_ => ?_,fun _ b' same => ?_⟩
      · rw [goes] at same; cases same; exact sound
      · cases same; exact absurd none_ found
      · rw [goes] at same; cases same; exact ⟨walkable_of_sound sound,.inl ⟨there,rfl⟩⟩
    · have keeps (fits : AddFits b tag size align_log2) : Sound after := addrec_sound sound aligned int adds fits
      refine ⟨fun fits b' same => ?_,fun walks b' same _ => ?_,fun fits b' same => ?_⟩
      · rw [goes] at same; cases same; exact keeps (fits b rfl found)
      · cases same; exact addrec_fits sound aligned int tagSmall adds (walks after goes).1
      · rw [goes] at same; cases same
        exact ⟨walkable_of_sound (keeps (fits b rfl found)),.inr ⟨absent,addrec_adds sound aligned adds⟩⟩

/-- In every run of successful calls the list can be walked after each of them
    exactly when each record that is added lies where the walk looks for it. -/
theorem bloblist_walkable_iff (ops : List Op) (succeed : Along next Succeeds none ops) :
    Along next Walks none ops ↔ Along next Fits none ops := by
  have start : Good none := by intro b same; contradiction
  have both : Along next (fun s op => Succeeds s op ∧ Walks s op) none ops ↔
      Along next (fun s op => Succeeds s op ∧ Fits s op) none ops := by
    refine along_iff (fun s op good step => ?_) (fun s op good => ?_) start
    · exact (success_iff good step.1).1 step.2
    · exact and_congr_right (fun succeeds => (success_iff good succeeds).2)
  rw [along_and,along_and] at both
  tauto

/-- Three records, the second behind padding and asked for twice. -/
def three_calls : List Op :=
  [.new 0x1000 4096 0 (fun _ => 0),.add 1 16 0,.ensure_size 2 16 4,.ensure_size 2 16 4,.add 3 5 0]

theorem bloblist_three_walkable : Along next Walks none three_calls := by
  refine (bloblist_walkable_iff three_calls ?_).mpr ?_
  · refine ⟨⟨by decide,_,rfl⟩,⟨by decide,_,rfl⟩,⟨by decide,_,rfl⟩,⟨by decide,_,rfl⟩,⟨by decide,_,rfl⟩,trivial⟩
  · refine ⟨trivial,?_,?_,?_,?_,trivial⟩
    · rintro b ⟨⟩
      exact ⟨by decide,by decide,.inl (by decide),by decide⟩
    · rintro b ⟨⟩ _
      exact ⟨by decide,by decide,.inr (by decide),by decide⟩
    · rintro b ⟨⟩ absent
      exact absurd absent (by decide)
    · rintro b ⟨⟩
      exact ⟨by decide,by decide,.inl (by decide),by decide⟩

/-- Four bytes with an alignment of 16: the used part ends 8 bytes behind the
    place where the walk looks for the next record. -/
theorem bloblist_aligned_not_walkable :
    Along next Succeeds none [.new 0x1000 4096 0 (fun _ => 0),.add 1 4 4] ∧
      ¬ Along next Walks none [.new 0x1000 4096 0 (fun _ => 0),.add 1 4 4] := by
  have first : Succeeds none (.new 0x1000 4096 0 (fun _ => 0)) := ⟨by decide,_,rfl⟩
  have second : Succeeds (next none (.new 0x1000 4096 0 (fun _ => 0))) (.add 1 4 4) := ⟨by decide,_,rfl⟩
  refine ⟨⟨first,second,trivial⟩,?_⟩
  rintro ⟨_,walks,_⟩
  have good : Good (next none (.new 0x1000 4096 0 (fun _ => 0))) :=
    (success_iff (fun b same => by contradiction) first).1 trivial
  have fits := (success_iff good second).2.mp walks _ rfl
  have ends := fits.ends
  revert ends
  decide

end UBoot.Bloblist
