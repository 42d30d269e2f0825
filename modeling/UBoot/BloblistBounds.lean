import UBoot.BloblistResize

/-!
What the blob list of `common/bloblist.c` does at its bounds. An addition may
have written its padding record before it sees that there is no room for the
record itself. `bloblist_check` accepts a list by its header and its checksum,
so the walk that `bloblist_findrec` and `bloblist_apply_blobs` share goes over
records that nobody looked at.
-/
namespace UBoot.BloblistBounds
open UBoot.Memory UBoot.Words UBoot.Bloblist UBoot.BloblistResize List Option

def EPROTONOSUPPORT : Int := 93
def EFBIG : Int := 27
def EIO : Int := 5

/-- The blob that was added, `none` for a null pointer. -/
def bloblist_add (b : Bloblist) (tag size align_log2 : Nat) : Option (Option Nat × Bloblist) :=
  (bloblist_addrec b tag size align_log2).map fun r =>
    (if r.1.1 ≠ 0 then none else some (r.1.2+rec_hdr_size r.2 r.1.2),r.2)

def bloblist_ensure_size (b : Bloblist) (tag size align_log2 : Nat) : Option ((Int × Option Nat) × Bloblist) :=
  (bloblist_ensurerec b tag size align_log2).map fun r =>
    if r.1.1 ≠ 0 then ((r.1.1,none),r.2) else ((0,some (r.1.2+rec_hdr_size r.2 r.1.2)),r.2)

/-- The used part is of the same size and the walk yields the same records. -/
def Unchanged (b after : Bloblist) : Prop :=
  after.used_size = b.used_size ∧ ∀ recs, Reads after recs ↔ Reads b recs

theorem addrec_here_cases (b : Bloblist) (tag size align_log2 : Nat) :
    addrec_here b tag size align_log2 = ((-ENOSPC,0),b) ∨
      (addrec_here b tag size align_log2).1 = (0,b.used_size) := by
  unfold addrec_here
  by_cases full : Bloblist.new_alloced b size align_log2 > b.total_size
  · exact .inl (if_pos full)
  · exact .inr (by rw [if_neg full])

variable {b b' : Bloblist} {off rec rounds : Nat} {offs : List Nat}

theorem gap_eight {align_log2 : Nat} (flush : gap b 0 = 0) : 8 ∣ gap b align_log2 := by
  have positive := Nat.two_pow_pos (effective align_log2)
  have here : 8 ∣ b.addr+b.used_size+BLOBLIST_REC_HDR_SIZE := by
    have whole := dvd_add_padding (b.addr+b.used_size+BLOBLIST_REC_HDR_SIZE) (show 0 < 2^effective 0 by decide)
    rw [show padding (b.addr+b.used_size+BLOBLIST_REC_HDR_SIZE) (2^effective 0) = 0 from flush] at whole
    exact whole
  by_cases large : 3 ≤ effective align_log2
  · have whole := dvd_add_padding (b.addr+b.used_size+BLOBLIST_REC_HDR_SIZE) positive
    exact (Nat.dvd_add_right here).mp (dvd_trans (eight_dvd_pow large) whole)
  · have divides : 2^effective align_log2 ∣ 8 := pow_dvd_pow 2 (show effective align_log2 ≤ 3 by omega)
    rw [gap,padding_eq_zero (dvd_trans divides here)]
    exact Nat.dvd_zero 8

theorem addrec_cases (within : b.used_size ≤ b.total_size) (small : b.total_size < 2^32)
    {tag size align_log2 : Nat} {result : (Int × Nat) × Bloblist}
    (runs : bloblist_addrec b tag size align_log2 = some result) :
    gap b align_log2 = 0 ∧ result = addrec_here b tag size (effective align_log2) ∨
      gap b align_log2 ≠ 0 ∧ b.total_size < b.used_size+gap b align_log2 ∧ result = ((-ENOSPC,0),b) ∨
      gap b align_log2 ≠ 0 ∧ b.used_size+gap b align_log2 ≤ b.total_size ∧
        result = addrec_here (padded b align_log2) tag size (effective align_log2) := by
  have defined_ : effective align_log2 < 32 := by
    by_contra large
    rw [bloblist_addrec,addrec_step,if_pos (not_lt.mp large)] at runs
    contradiction
  have limited : (2 : Nat)^effective align_log2 ≤ 2^31 := Nat.pow_le_pow_right (by simp) (by omega)
  have short : gap b align_log2 < 2^effective align_log2 := padding_lt _ (Nat.two_pow_pos _)
  rw [bloblist_addrec,addrec_step,if_neg (not_le.mpr defined_)] at runs
  by_cases none_ : gap b align_log2 = 0
  · rw [if_pos none_] at runs
    exact .inl ⟨none_,(Option.some.inj runs).symm⟩
  right
  rw [if_neg none_] at runs
  by_cases narrow : gap b align_log2 < BLOBLIST_REC_HDR_SIZE
  · rw [if_pos narrow] at runs
    contradiction
  rw [if_neg narrow] at runs
  -- The padding record is aligned: behind any other place the call would not return.
  have flush : gap b 0 = 0 := by
    by_contra shifted
    have less : gap b 0 < BLOBLIST_REC_HDR_SIZE := padding_lt _ (show 0 < 2^effective 0 by decide)
    rw [addrec_step,if_neg (by decide),if_neg shifted,if_pos less] at runs
    contradiction
  have first := padding_result within small flush (gap_eight flush) none_ (by omega)
  by_cases full : b.total_size < b.used_size+gap b align_log2
  · rw [if_pos full] at first
    rw [first,bind_some,if_pos (show (-ENOSPC : Int) ≠ 0 by decide)] at runs
    exact .inl ⟨none_,full,(Option.some.inj runs).symm⟩
  · rw [if_neg full] at first
    rw [first,bind_some,if_neg (by simp)] at runs
    exact .inr ⟨none_,by omega,(Option.some.inj runs).symm⟩

theorem addrec_failed (within : b.used_size ≤ b.total_size) (small : b.total_size < 2^32)
    {tag size align_log2 rec : Nat} {ret : Int} {after : Bloblist}
    (runs : bloblist_addrec b tag size align_log2 = some ((ret,rec),after)) (fails : ret ≠ 0) :
    Unchanged b after ↔ gap b align_log2 = 0 ∨ b.total_size < b.used_size+gap b align_log2 := by
  have same : Unchanged b b := ⟨rfl,fun _ => Iff.rfl⟩
  rcases addrec_cases within small runs with ⟨none_,result⟩ | ⟨_,full,result⟩ | ⟨some_gap,room,result⟩
  · rcases addrec_here_cases b tag size (effective align_log2) with full | placed
    · cases result.trans full
      exact ⟨fun _ => .inl none_,fun _ => same⟩
    · rw [← result] at placed
      exact absurd (congrArg Prod.fst placed) fails
  · cases result
    exact ⟨fun _ => .inr full,fun _ => same⟩
  · rcases addrec_here_cases (padded b align_log2) tag size (effective align_log2) with full | placed
    · cases result.trans full
      refine ⟨fun unchanged => ?_,fun stops => ?_⟩
      · have kept := unchanged.1
        rw [(padded_fields b align_log2).2.1] at kept
        omega
      · omega
    · rw [← result] at placed
      exact absurd (congrArg Prod.fst placed) fails

/-- A call that fails for lack of space leaves the list as it was exactly when
    the record needs no padding or the padding itself has no room. -/
theorem failed_add_keeps_iff (b : Bloblist) (within : b.used_size ≤ b.total_size) (small : b.total_size < 2^32)
    (tag size align_log2 : Nat) (after : Bloblist)
    (fails : bloblist_add b tag size align_log2 = some (none,after) ∨
      ∃ blob, bloblist_ensure_size b tag size align_log2 = some ((-ENOSPC,blob),after)) :
    Unchanged b after ↔ gap b align_log2 = 0 ∨ b.total_size < b.used_size+gap b align_log2 := by
  rcases fails with fails | ⟨blob,fails⟩
  · obtain ⟨⟨⟨ret,rec⟩,made⟩,runs,result⟩ := Option.map_eq_some_iff.mp fails
    obtain ⟨null,rfl⟩ := Prod.mk.inj result
    refine addrec_failed within small runs ?_
    intro zero
    simp [zero] at null
  · obtain ⟨⟨⟨ret,rec⟩,made⟩,runs,result⟩ := Option.map_eq_some_iff.mp fails
    have code : ret = -ENOSPC ∧ made = after := by
      by_cases zero : ret = 0
      · simp [zero,ENOSPC] at result
      · rw [if_pos zero] at result
        cases result
        exact ⟨rfl,rfl⟩
    obtain ⟨rfl,rfl⟩ := code
    unfold bloblist_ensurerec at runs
    obtain ⟨found,_,goes⟩ := Option.bind_eq_some_iff.mp runs
    cases found with
    | none => exact addrec_failed within small goes (by decide)
    | some there =>
      dsimp only at goes
      by_cases other : size ≠ 0 ∧ size ≠ rec_size b there
      · simp [other,ENOSPC,ESPIPE] at goes
      · simp [other,ENOSPC] at goes

/-- A list of 48 bytes with one record that has no data: 16 bytes are left. -/
def nearly_full : Bloblist := write_rec ⟨0x1000,24,48,3,fun _ => 0,[]⟩ 1 0 3 32

theorem failed_add_flush_keeps :
    ∃ after, bloblist_add nearly_full 2 16 3 = some (none,after) ∧ Unchanged nearly_full after := by
  have runs : bloblist_addrec nearly_full 2 16 3 = some ((-ENOSPC,0),nearly_full) := by
    rw [bloblist_addrec,addrec_flush 1 2 16 (by decide) (by decide),addrec_here,if_pos (by decide)]
  have fails : bloblist_add nearly_full 2 16 3 = some (none,nearly_full) := by
    rw [bloblist_add,runs]
    rfl
  refine ⟨nearly_full,fails,?_⟩
  exact (failed_add_keeps_iff nearly_full (by decide) (by decide) 2 16 3 nearly_full (.inl fails)).mpr (.inl (by decide))

/-- With an alignment of 16 the padding record is placed before the 16 bytes of
    the record are found not to fit. -/
theorem failed_add_keeps_padding :
    ∃ after, bloblist_add nearly_full 2 16 4 = some (none,after) ∧ after.used_size = 40 ∧
      ¬ Unchanged nearly_full after := by
  have padding := @padding_result nearly_full 4 (by decide) (by decide) (by decide) (by decide)
    (by decide) (by decide)
  rw [if_neg (by decide)] at padding
  have runs : bloblist_addrec nearly_full 2 16 4 = some ((-ENOSPC,0),padded nearly_full 4) := by
    rw [bloblist_addrec,addrec_behind 1 2 16 (by decide) (by decide) padding,if_neg (by simp),addrec_here,
      if_pos (by decide)]
  refine ⟨padded nearly_full 4,?_,by decide,fun unchanged => absurd unchanged.1 (by decide)⟩
  rw [bloblist_add,runs]
  rfl

def BLOBLIST_MAGIC : Nat := 0x4a0fb10b
def BLOBLIST_VERSION : UInt8 := 1
def BLOBLISTT_FDT_OVERLAY : Nat := 7
def DTO_BLOB_HDR_SIZE : Nat := 8

def table_compute_checksum (bytes : List UInt8) : UInt8 := bytes.foldl (fun checksum byte => checksum-byte) 0

/-- The length goes through an `int`: from 2^31 on it is negative and no byte is
    summed. -/
def bloblist_calc_chksum (mem : Nat → UInt8) : UInt8 :=
  table_compute_checksum (load mem 0 (if word mem 8 ≤ intMax then word mem 8 else 0))+mem 4

def hdr_at (addr : Nat) (mem : Nat → UInt8) : Bloblist := ⟨addr,word mem 8,word mem 12,(mem 7).toNat,mem,[]⟩

/-- `gd->bloblist` after a check that returns 0. The memory is given from the
    header on. -/
def bloblist_check (addr size : Nat) (mem : Nat → UInt8) : Except Int Bloblist :=
  if word mem 0 ≠ BLOBLIST_MAGIC then .error (-ENOENT)
  else if mem 5 ≠ BLOBLIST_VERSION then .error (-EPROTONOSUPPORT)
  else if word mem 12 = 0 ∨ size ≠ 0 ∧ word mem 12 > size then .error (-EFBIG)
  else if word mem 8 > word mem 12 then .error (-ENOENT)
  else if (mem 6).toNat ≠ BLOBLIST_HDR_SIZE then .error (-ENOENT)
  else if mem 4 ≠ bloblist_calc_chksum mem then .error (- EIO)
  else .ok (hdr_at addr mem)

def void_blob (b : Bloblist) (rec : Nat) : Bloblist :=
  if rec_tag b rec = BLOBLISTT_VOID then b
  else { b with mem := store b.mem rec (le32 (BLOBLISTT_VOID ||| BLOBLIST_REC_HDR_SIZE <<< BLOBLISTR_HDR_SIZE_SHIFT)) }

def bloblist_get_blob_data_offset (tag : Nat) : Nat := if tag = BLOBLISTT_FDT_OVERLAY then DTO_BLOB_HDR_SIZE else 0

/-- The loop of `bloblist_apply_blobs` for so many rounds: the return code, the
    records that the loop came to and the list after it. `func` is given the
    offset of the data and its size; it leaves the pointer and the list alone. -/
def apply_from (tag : Nat) (func : Nat → Int → Int) : Bloblist → Nat → Option Nat → Option (Int × List Nat × Bloblist)
  | b, _, none => some (0,[],b)
  | _, 0, some _ => none
  | b, rounds+1, some rec =>
    if rec_tag b rec = tag then
      let dat_off := bloblist_get_blob_data_offset tag
      let blob := rec+rec_hdr_size b rec+dat_off
      let ret := func blob (rec_size b rec-dat_off)
      if ret ≠ 0 then some (ret,[rec],b)
      else
        -- The record is taken to begin eight bytes before its data.
        let rec_from_blob := blob-dat_off-BLOBLIST_REC_HDR_SIZE
        let voided := void_blob b rec_from_blob
        (bloblist_next_blob voided rec_from_blob).bind fun next =>
          (apply_from tag func voided rounds next).map fun r => (r.1,rec :: r.2.1,r.2.2)
    else
      (bloblist_next_blob b rec).bind fun next =>
        (apply_from tag func b rounds next).map fun r => (r.1,rec :: r.2.1,r.2.2)

def bloblist_apply_blobs (b : Bloblist) (tag : Nat) (func : Nat → Int → Int) : Option (Int × List Nat × Bloblist) :=
  apply_from tag func b b.used_size (bloblist_first_blob b)

/-- What the walk shows: it ends, its records lie one behind another, and the
    header and the data of each are inside the used part. A search ends with the
    first record of the tag. Where the records of a tag have headers of eight
    bytes, applying them comes to the same records, up to the one that fails. -/
structure Exposes (b : Bloblist) (offs : List Nat) : Prop where
  walk : Visits b (bloblist_first_blob b) offs
  increasing : offs.Pairwise (· < ·)
  headers : ∀ rec ∈ offs, rec+BLOBLIST_REC_HDR_SIZE ≤ b.used_size
  data : ∀ rec ∈ offs, rec+rec_hdr_size b rec+rec_size b rec ≤ b.used_size
  found : ∀ tag, bloblist_findrec b tag = some (offs.find? (fun rec => rec_tag b rec = tag))
  applied : ∀ tag func, (∀ rec ∈ offs, rec_tag b rec = tag → rec_hdr_size b rec = BLOBLIST_REC_HDR_SIZE) →
    ∃ ret visited after, bloblist_apply_blobs b tag func = some (ret,visited,after) ∧ visited <+: offs

/-- A record with its header and its data inside the used part. It is not empty,
    header and all, where an empty record ends at its own beginning. -/
structure RecordFits (b : Bloblist) (rec : Nat) : Prop where
  defined_ : b.align_log2 < 32
  header : rec+BLOBLIST_REC_HDR_SIZE ≤ b.used_size
  data : rec+rec_hdr_size b rec+rec_size b rec ≤ b.used_size
  filled : rec_hdr_size b rec+rec_size b rec ≠ 0 ∨ ¬ 2^b.align_log2 ∣ rec

instance (b : Bloblist) (rec : Nat) : Decidable (RecordFits b rec) :=
  decidable_of_iff (b.align_log2 < 32 ∧ rec+BLOBLIST_REC_HDR_SIZE ≤ b.used_size ∧
      rec+rec_hdr_size b rec+rec_size b rec ≤ b.used_size ∧
      (rec_hdr_size b rec+rec_size b rec ≠ 0 ∨ ¬ 2^b.align_log2 ∣ rec))
    ⟨fun h => ⟨h.1,h.2.1,h.2.2.1,h.2.2.2⟩,fun h => ⟨h.defined_,h.header,h.data,h.filled⟩⟩

def blob_end (b : Bloblist) (rec : Nat) : Nat :=
  roundUp (rec+rec_hdr_size b rec+rec_size b rec+rec_hdr_size b rec) (2^b.align_log2)-rec_hdr_size b rec

/-- From the offset on, at most so many records lie one behind another up to the
    end of the used part, and each fits. -/
def RecordsFit (b : Bloblist) : Nat → Nat → Prop
  | 0, off => b.used_size ≤ off
  | rounds+1, off => b.used_size ≤ off ∨ RecordFits b off ∧ RecordsFit b rounds (blob_end b off)

instance decideRecordsFit (b : Bloblist) : ∀ rounds off, Decidable (RecordsFit b rounds off)
  | 0, off => inferInstanceAs (Decidable (b.used_size ≤ off))
  | rounds+1, off =>
    have := decideRecordsFit b rounds (blob_end b off)
    inferInstanceAs (Decidable (b.used_size ≤ off ∨ RecordFits b off ∧ RecordsFit b rounds (blob_end b off)))

theorem end_ofs_defined (rec : Nat) (defined_ : b.align_log2 < 32) :
    bloblist_blob_end_ofs b rec = some (blob_end b rec) := if_pos defined_

theorem blob_end_advances (b : Bloblist) (rec : Nat) :
    rec < blob_end b rec ↔ rec_hdr_size b rec+rec_size b rec ≠ 0 ∨ ¬ 2^b.align_log2 ∣ rec := by
  have positive := Nat.two_pow_pos b.align_log2
  have large := le_roundUp (rec+rec_hdr_size b rec+rec_size b rec+rec_hdr_size b rec) positive
  unfold blob_end
  by_cases empty : rec_hdr_size b rec+rec_size b rec = 0
  · have hdr : rec_hdr_size b rec = 0 := by omega
    have size : rec_size b rec = 0 := by omega
    have multiple := @roundUp_eq_self rec _ positive
    simp only [hdr,size,add_zero,Nat.sub_zero,ne_eq,not_true_eq_false,false_or] at large ⊢
    rw [← multiple]
    omega
  · exact ⟨fun _ => .inl empty,fun _ => by omega⟩

theorem blob_end_ge (b : Bloblist) (rec : Nat) : rec+rec_size b rec ≤ blob_end b rec := by
  have large := le_roundUp (rec+rec_hdr_size b rec+rec_size b rec+rec_hdr_size b rec) (Nat.two_pow_pos b.align_log2)
  unfold blob_end
  omega

theorem first_blob_eq (b : Bloblist) : bloblist_first_blob b = record_from b BLOBLIST_HDR_SIZE := rfl

theorem increasing_length {low high : Nat} (increasing : offs.Pairwise (· < ·))
    (above : ∀ off ∈ offs, low ≤ off) (below : ∀ off ∈ offs, off < high) : offs.length ≤ high-low := by
  induction offs generalizing low with
  | nil => exact Nat.zero_le _
  | cons off rest ih =>
    obtain ⟨first,later⟩ := pairwise_cons.mp increasing
    have bound := ih later (fun next member => first next member) (fun next member => below next (.tail off member))
    have here := below off (.head rest)
    have there := above off (.head rest)
    simp only [length_cons]
    omega

theorem walk_of_fit (fit : RecordsFit b rounds off) :
    ∃ offs, Visits b (record_from b off) offs ∧ offs.Pairwise (· < ·) ∧ ∀ rec ∈ offs, off ≤ rec ∧ RecordFits b rec := by
  have done {off : Nat} (past : b.used_size ≤ off) : ∃ offs, Visits b (record_from b off) offs ∧
      offs.Pairwise (· < ·) ∧ ∀ rec ∈ offs, off ≤ rec ∧ RecordFits b rec := by
    refine ⟨[],?_,.nil,by simp⟩
    rw [record_from,if_pos past]
    exact .done
  induction rounds generalizing off with
  | zero => exact done fit
  | succ rounds ih =>
    by_cases past : b.used_size ≤ off
    · exact done past
    obtain ⟨record,later⟩ := fit.resolve_left past
    obtain ⟨offs,visits,increasing,inside⟩ := ih later
    have grows := (blob_end_advances b off).mpr record.filled
    refine ⟨off :: offs,?_,pairwise_cons.mpr ⟨?_,increasing⟩,?_⟩
    · rw [record_from,if_neg past]
      exact .record (next_blob_eq (end_ofs_defined off record.defined_)) visits
    · intro rec member
      have := (inside rec member).1
      omega
    · intro rec member
      rcases mem_cons.mp member with rfl | member
      · exact ⟨le_rfl,record⟩
      · exact ⟨by have := (inside rec member).1; omega,(inside rec member).2⟩

theorem fit_of_walk (visits : Visits b (record_from b off) offs)
    (increasing : offs.Pairwise (· < ·)) (headers : ∀ rec ∈ offs, rec+BLOBLIST_REC_HDR_SIZE ≤ b.used_size)
    (data : ∀ rec ∈ offs, rec+rec_hdr_size b rec+rec_size b rec ≤ b.used_size)
    (enough : offs.length ≤ rounds) : RecordsFit b rounds off := by
  have past {off : Nat} (ends : record_from b off = none) : b.used_size ≤ off := by
    by_contra inside
    simp [record_from,inside] at ends
  induction offs generalizing off rounds with
  | nil =>
    have ends : b.used_size ≤ off := by
      cases start : record_from b off with
      | none => exact past start
      | some rec => rw [start] at visits; cases visits
    cases rounds with
    | zero => exact ends
    | succ rounds => exact .inl ends
  | cons rec rest ih =>
    obtain ⟨left,rfl⟩ : ∃ left, rounds = left+1 := ⟨rounds-1,by simp only [length_cons] at enough; omega⟩
    by_cases ends : b.used_size ≤ off
    · exact .inl ends
    right
    rw [record_from,if_neg ends] at visits
    cases visits with
    | record step later =>
      obtain ⟨first,increasing⟩ := pairwise_cons.mp increasing
      have defined_ : b.align_log2 < 32 := by
        by_contra large
        simp [bloblist_next_blob,bloblist_blob_end_ofs,large] at step
      rw [next_blob_eq (end_ofs_defined rec defined_)] at step
      cases step
      -- Where the walk stood still it would come to this record again.
      have grows : rec < blob_end b rec := by
        have least := blob_end_ge b rec
        by_contra stands
        have same : blob_end b rec = rec := by omega
        rw [same,record_from,if_neg ends] at later
        cases later with
        | record _ _ => exact absurd (first rec (.head _)) (lt_irrefl rec)
      refine ⟨⟨defined_,headers rec (.head _),data rec (.head _),(blob_end_advances b rec).mp grows⟩,?_⟩
      exact ih later increasing (fun next member => headers next (.tail rec member))
        (fun next member => data next (.tail rec member)) (by simp only [length_cons] at enough; omega)

theorem visits_find {start : Option Nat} (visits : Visits b start offs) (tag : Nat) (enough : offs.length ≤ rounds) :
    find_from b tag rounds start = some (offs.find? (fun rec => rec_tag b rec = tag)) := by
  induction visits generalizing rounds with
  | done => simp [find_from]
  | @record rec next rest step _ ih =>
    obtain ⟨left,rfl⟩ : ∃ left, rounds = left+1 := ⟨rounds-1,by simp only [length_cons] at enough; omega⟩
    rw [find_from]
    by_cases here : rec_tag b rec = tag
    · simp [here]
    · rw [if_neg here,step,bind_some,ih (by simp only [length_cons] at enough; omega)]
      simp [here]

/-- The second list has the bytes of the first one from the offset on, if there
    is one. -/
structure Behind (b b' : Bloblist) (start : Option Nat) : Prop where
  used_size : b'.used_size = b.used_size
  align_log2 : b'.align_log2 = b.align_log2
  bytes : ∀ off, start = some off → ∀ i, off ≤ i → b'.mem i = b.mem i

theorem behind_record (behind : Behind b b' (some rec)) :
    rec_tag b' rec = rec_tag b rec ∧ rec_hdr_size b' rec = rec_hdr_size b rec ∧ rec_size b' rec = rec_size b rec := by
  have head : word b'.mem rec = word b.mem rec := word_congr fun i _ => behind.bytes rec rfl (rec+i) (by omega)
  have size : word b'.mem (rec+4) = word b.mem (rec+4) :=
    word_congr fun i _ => behind.bytes rec rfl (rec+4+i) (by omega)
  simp only [rec_tag,rec_hdr_size,rec_size,tag_and_hdr_size,head,size]
  exact ⟨trivial,trivial,trivial⟩

theorem next_blob_congr (used : b'.used_size = b.used_size)
    (align : b'.align_log2 = b.align_log2) (hdr : rec_hdr_size b' rec = rec_hdr_size b rec)
    (size : rec_size b' rec = rec_size b rec) : bloblist_next_blob b' rec = bloblist_next_blob b rec := by
  simp only [bloblist_next_blob,bloblist_blob_end_ofs,used,align,hdr,size]

theorem void_blob_sizes (b : Bloblist) (eight : rec_hdr_size b rec = BLOBLIST_REC_HDR_SIZE) :
    (void_blob b rec).used_size = b.used_size ∧ (void_blob b rec).align_log2 = b.align_log2 ∧
      rec_hdr_size (void_blob b rec) rec = rec_hdr_size b rec ∧ rec_size (void_blob b rec) rec = rec_size b rec ∧
      ∀ i, rec+4 ≤ i → (void_blob b rec).mem i = b.mem i := by
  unfold void_blob
  by_cases void : rec_tag b rec = BLOBLISTT_VOID
  · simp [void]
  · rw [if_neg void]
    refine ⟨rfl,rfl,?_,?_,fun i far => store_above _ _ far⟩
    · rw [eight,rec_hdr_size,tag_and_hdr_size,word_store (head_word_lt (by decide))]
      rfl
    · exact word_store_apart _ (.inr le_rfl)

theorem next_blob_ge (step : bloblist_next_blob b rec = some (some off)) :
    rec+rec_size b rec ≤ off ∧ (rec_hdr_size b rec = BLOBLIST_REC_HDR_SIZE → rec+4 ≤ off) := by
  have defined_ : b.align_log2 < 32 := by
    by_contra large
    simp [bloblist_next_blob,bloblist_blob_end_ofs,large] at step
  rw [next_blob_eq (end_ofs_defined rec defined_),record_from] at step
  by_cases ends : b.used_size ≤ blob_end b rec
  · simp [ends] at step
  · simp only [ends,if_false,Option.some.injEq] at step
    subst step
    refine ⟨blob_end_ge b rec,fun eight => ?_⟩
    have large := le_roundUp (rec+rec_hdr_size b rec+rec_size b rec+rec_hdr_size b rec) (Nat.two_pow_pos b.align_log2)
    unfold blob_end
    unfold BLOBLIST_REC_HDR_SIZE at eight
    omega

theorem visits_apply {start : Option Nat} (visits : Visits b start offs)
    (tag : Nat) (func : Nat → Int → Int)
    (eights : ∀ rec ∈ offs, rec_tag b rec = tag → rec_hdr_size b rec = BLOBLIST_REC_HDR_SIZE)
    (behind : Behind b b' start) (enough : offs.length ≤ rounds) :
    ∃ ret visited after, apply_from tag func b' rounds start = some (ret,visited,after) ∧ visited <+: offs := by
  induction visits generalizing b' rounds with
  | done => exact ⟨0,[],b',by simp [apply_from],List.nil_prefix⟩
  | @record rec next rest step _ ih =>
    obtain ⟨left,rfl⟩ : ∃ left, rounds = left+1 := ⟨rounds-1,by simp only [length_cons] at enough; omega⟩
    obtain ⟨sameTag,sameHdr,sameSize⟩ := behind_record behind
    have short : rest.length ≤ left := by simp only [length_cons] at enough; omega
    have later {mid : Bloblist} (kept : Behind b mid next) :=
      ih (fun next member => eights next (.tail rec member)) kept short
    -- Both ways on come to the next record of the walk.
    have goes {mid : Bloblist} (onward : bloblist_next_blob mid rec = some next) (kept : Behind b mid next) :
        ∃ ret visited after, ((bloblist_next_blob mid rec).bind fun next =>
          (apply_from tag func mid left next).map fun r => (r.1,rec :: r.2.1,r.2.2)) = some (ret,visited,after) ∧
          visited <+: rec :: rest := by
      obtain ⟨ret,visited,after,runs,begins⟩ := later kept
      refine ⟨ret,rec :: visited,after,?_,cons_prefix_cons.mpr ⟨rfl,begins⟩⟩
      rw [onward,bind_some,runs]
      rfl
    rw [apply_from]
    by_cases here : rec_tag b rec = tag
    · have eight := eights rec (.head rest) here
      rw [if_pos (sameTag.trans here)]
      dsimp only
      by_cases fails : func (rec+rec_hdr_size b' rec+bloblist_get_blob_data_offset tag)
          (rec_size b' rec-bloblist_get_blob_data_offset tag) ≠ 0
      · rw [if_pos fails]
        exact ⟨_,[rec],b',rfl,cons_prefix_cons.mpr ⟨rfl,List.nil_prefix⟩⟩
      rw [if_neg fails]
      have begins : rec+rec_hdr_size b' rec+bloblist_get_blob_data_offset tag-
          bloblist_get_blob_data_offset tag-BLOBLIST_REC_HDR_SIZE = rec := by
        rw [sameHdr,eight]
        omega
      rw [begins]
      obtain ⟨used,align,hdr,size,bytes⟩ := void_blob_sizes b' (sameHdr.trans eight)
      refine goes ?_ ⟨used.trans behind.used_size,align.trans behind.align_log2,?_⟩
      · rw [next_blob_congr used align hdr size,
          next_blob_congr behind.used_size behind.align_log2 sameHdr sameSize,step]
      · rintro off rfl i far
        have ahead := (next_blob_ge step).2 eight
        rw [bytes i (by omega),behind.bytes rec rfl i (by omega)]
    · rw [if_neg (fun same => here (sameTag.symm.trans same))]
      refine goes ?_ ⟨behind.used_size,behind.align_log2,?_⟩
      · rw [next_blob_congr behind.used_size behind.align_log2 sameHdr sameSize,step]
      · rintro off rfl i far
        have ahead := (next_blob_ge step).1
        exact behind.bytes rec rfl i (by omega)

theorem exposes_of_fit (fit : RecordsFit b b.used_size BLOBLIST_HDR_SIZE) : ∃ offs, Exposes b offs := by
  obtain ⟨offs,visits,increasing,inside⟩ := walk_of_fit fit
  rw [← first_blob_eq] at visits
  have below : ∀ rec ∈ offs, rec < b.used_size := by
    intro rec member
    have := (inside rec member).2.header
    unfold BLOBLIST_REC_HDR_SIZE at this
    omega
  have enough : offs.length ≤ b.used_size := by
    have := increasing_length increasing (fun rec _ => Nat.zero_le rec) below
    omega
  exact ⟨offs,visits,increasing,fun rec member => (inside rec member).2.header,
    fun rec member => (inside rec member).2.data,fun tag => visits_find visits tag enough,
    fun tag func eights => visits_apply visits tag func eights ⟨rfl,rfl,fun _ _ _ _ => rfl⟩ enough⟩

theorem fit_of_exposes (exposes : Exposes b offs) :
    RecordsFit b b.used_size BLOBLIST_HDR_SIZE := by
  have enough : offs.length ≤ b.used_size := by
    have := increasing_length exposes.increasing (fun rec _ => Nat.zero_le rec) (fun rec member => by
      have := exposes.headers rec member
      unfold BLOBLIST_REC_HDR_SIZE at this
      show rec < b.used_size
      omega)
    omega
  exact fit_of_walk (first_blob_eq b ▸ exposes.walk) exposes.increasing exposes.headers exposes.data enough

theorem check_accepts {addr size : Nat} {mem : Nat → UInt8}
    (checked : bloblist_check addr size mem = .ok b) : b = hdr_at addr mem := by
  unfold bloblist_check at checked
  iterate 6
    split at checked
    · contradiction
  exact (Except.ok.inj checked).symm

/-- A list that passes the check can be walked inside its used part exactly when
    its records lie there one behind another, none of them empty where an empty
    record ends at its own beginning. -/
theorem checked_walk_iff {addr size : Nat} {mem : Nat → UInt8} {b : Bloblist}
    (checked : bloblist_check addr size mem = .ok b) :
    (∃ offs, Exposes b offs) ↔ RecordsFit (hdr_at addr mem) (word mem 8) BLOBLIST_HDR_SIZE := by
  obtain rfl := check_accepts checked
  exact ⟨fun ⟨offs,exposes⟩ => fit_of_exposes exposes,exposes_of_fit⟩

/-- The header of a list with 40 bytes used of 64, and a record of the tag 1 with
    eight bytes of data. -/
def checked_bytes : List UInt8 :=
  [0x0b,0xb1,0x0f,0x4a,0x32,1,24,3,40,0,0,0,64,0,0,0,0,0,0,0,0,0,0,0,1,0,0,8,8,0,0,0,1,2,3,4,5,6,7,8]

theorem checked_one_record : ∃ offs, Exposes (hdr_at 0x1000 (store (fun _ => 0) 0 checked_bytes)) offs := by
  have checked : bloblist_check 0x1000 0 (store (fun _ => 0) 0 checked_bytes) =
      .ok (hdr_at 0x1000 (store (fun _ => 0) 0 checked_bytes)) := by
    rw [bloblist_check,if_neg (by decide),if_neg (by decide),if_neg (by decide),if_neg (by decide),
      if_neg (by decide),if_neg (by decide +kernel)]
  exact (checked_walk_iff checked).mpr (by decide +kernel)

/-- The header of a list with 32 bytes used: behind it a record that is all zero. -/
def empty_record_bytes : List UInt8 := [0x0b,0xb1,0x0f,0x4a,0x6f,1,24,3,32,0,0,0,64]

/-- The empty record ends where it begins, and the search does not get past it. -/
theorem checked_empty_record :
    bloblist_check 0x1000 0 (store (fun _ => 0) 0 empty_record_bytes) =
        .ok (hdr_at 0x1000 (store (fun _ => 0) 0 empty_record_bytes)) ∧
      bloblist_findrec (hdr_at 0x1000 (store (fun _ => 0) 0 empty_record_bytes)) 1 = none ∧
      ¬ ∃ offs, Exposes (hdr_at 0x1000 (store (fun _ => 0) 0 empty_record_bytes)) offs := by
  have stands : bloblist_findrec (hdr_at 0x1000 (store (fun _ => 0) 0 empty_record_bytes)) 1 = none := by decide +kernel
  refine ⟨?_,stands,?_⟩
  · rw [bloblist_check,if_neg (by decide),if_neg (by decide),if_neg (by decide),if_neg (by decide),
      if_neg (by decide),if_neg (by decide +kernel)]
  · rintro ⟨offs,exposes⟩
    have ends := exposes.found 1
    rw [stands] at ends
    contradiction

end UBoot.BloblistBounds
