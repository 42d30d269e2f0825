import UBoot.Ring
import UBoot.Runs
import UBoot.Words

/-!
The circular buffer of `lib/membuf.c`. A buffer of `n` bytes holds at most
`n - 1`: it is empty when head and tail meet. The functions below follow the
source, with offsets from the start of the buffer in place of the pointers;
`contents` is the byte queue that a buffer stands for, and every operation is
compared with what it means for that queue (`Queued`).
-/
namespace UBoot.Membuf
open UBoot.Memory UBoot.Ring UBoot.Runs UBoot.Words List Option
set_option linter.dupNamespace false

/-- `struct membuf`: the bytes from `start` to `end`, and the offsets of `head`
    and `tail` from `start`. A buffer of size 0 is one without memory. -/
structure Membuf where
  size : Nat
  data : Nat → UInt8
  head : Nat
  tail : Nat

/-- `if (maxlen >= 0 && len > maxlen) len = maxlen;` -/
def clip (maxlen : Int) (len : Nat) : Nat := if 0 ≤ maxlen ∧ maxlen < len then maxlen.toNat else len

/-- Where bytes can be written: the buffer after the call, the offset of the
    first byte and how many fit there. -/
def membuf_putraw (mb : Membuf) (maxlen : Int) (update : Bool) : Membuf × Nat × Nat :=
  let offset := mb.head
  if mb.size = 0 then (mb,offset,0)
  else if mb.tail ≤ mb.head then
    let len := clip maxlen (mb.size-mb.head-1)
    let moved := if update then { mb with head := mb.head+len } else mb
    -- One more byte fits right at the end unless the tail is at the start.
    if (maxlen < 0 ∨ (len : Int) < maxlen) ∧ mb.tail ≠ 0 then
      (if update then { moved with head := 0 } else moved,offset,len+1)
    else (moved,offset,len)
  else
    let len := clip maxlen (mb.tail-mb.head-1)
    (if update then { mb with head := mb.head+len } else mb,offset,len)

/-- Where bytes can be read: the buffer after the call, the offset of the
    first byte and how many lie there in one piece. -/
def membuf_getraw (mb : Membuf) (maxlen : Int) (update : Bool) : Membuf × Nat × Nat :=
  if mb.tail < mb.head then
    let len := clip maxlen (mb.head-mb.tail)
    (if update then { mb with tail := mb.tail+len } else mb,mb.tail,len)
  else if mb.head < mb.tail then
    let len := clip maxlen (mb.size-mb.tail)
    let next := mb.tail+len
    (if update then { mb with tail := if next = mb.size then 0 else next } else mb,mb.tail,len)
  else (mb,mb.tail,0)

def membuf_putbyte (mb : Membuf) (ch : UInt8) : Bool × Membuf :=
  let (mb,offset,len) := membuf_putraw mb 1 true
  if len ≠ 1 then (false,mb) else (true,{ mb with data := store mb.data offset [ch] })

/-- The byte that `membuf_getbyte` returns, or -1. -/
def membuf_getbyte (mb : Membuf) : Int × Membuf :=
  let (after,offset,len) := membuf_getraw mb 1 true
  if len ≠ 1 then (-1,after) else ((mb.data offset).toNat,after)

def membuf_peekbyte (mb : Membuf) : Int × Membuf :=
  let (after,offset,len) := membuf_getraw mb 1 false
  if len ≠ 1 then (-1,after) else ((mb.data offset).toNat,after)

/-- The loop of `membuf_get` with `rounds` rounds to go. -/
def membuf_get_from : Nat → Membuf → Int → List UInt8 → List UInt8 × Membuf
  | 0, mb, _, got => (got,mb)
  | rounds+1, mb, maxlen, got =>
    let (after,offset,len) := membuf_getraw mb maxlen true
    let got := got ++ load mb.data offset len
    if len = 0 then (got,after) else membuf_get_from rounds after (maxlen-len) got

def membuf_get (mb : Membuf) (maxlen : Nat) : List UInt8 × Membuf := membuf_get_from 2 mb maxlen []

/-- The loop of `membuf_put` with `rounds` rounds to go. -/
def membuf_put_from : Nat → Membuf → List UInt8 → Nat → Nat × Membuf
  | 0, mb, _, written => (written,mb)
  | rounds+1, mb, buff, written =>
    let (after,offset,towrite) := membuf_putraw mb buff.length true
    membuf_put_from rounds { after with data := store after.data offset (buff.take towrite) }
      (buff.drop towrite) (written+towrite)

def membuf_put (mb : Membuf) (buff : List UInt8) : Nat × Membuf := membuf_put_from 2 mb buff 0

/-- The bytes that can be read: everything is read out of a copy. -/
def membuf_avail (mb : Membuf) : Nat :=
  let (copy,_,first) := membuf_getraw mb (-1) true
  let (_,_,second) := membuf_getraw copy (-1) true
  first+second

def membuf_size (mb : Membuf) : Nat := mb.size

def membuf_free (mb : Membuf) : Nat := if mb.size = 0 then 0 else mb.size-1-membuf_avail mb

def membuf_makecontig (mb : Membuf) : Bool × Membuf :=
  if mb.head < mb.tail then
    let topsize := mb.size-mb.tail
    let botsize := mb.head
    if mb.tail ≤ mb.head+topsize then (false,mb)
    else
      let data := memmove mb.data topsize 0 botsize
      (true,{ mb with data := memcpy data 0 mb.tail topsize, tail := 0, head := topsize+botsize })
  else
    let topsize := mb.head-mb.tail
    (true,{ mb with data := memcpy mb.data 0 mb.tail topsize, tail := 0, head := topsize })

/-- `while (size < target) size *= 2;` in an `int`, for so many rounds; no value
    when the loop is still going then. -/
def double (target : Int) : Nat → Int → Option Int
  | 0, size => if size < target then none else some size
  | rounds+1, size => if size < target then double target rounds (wrap (size*2)) else some size

/-- The size that the loop ends with. After 32 doublings a size is 0 and stays
    so: no size when the loop never ends. -/
def doubled_size (orig by_ : Nat) : Option Int := double (wrap (orig+by_)) 32 orig

def E2BIG : Int := 7
def ENOMEM : Int := 12

/-- The part of `membuf_extend_by` behind the size computation: `fresh` is the
    memory that `realloc` gives past the old bytes, or nothing when it fails (as
    it does for a negative size). -/
def extend_to (mb : Membuf) (size : Int) (fresh : Option (Nat → UInt8)) : Int × Membuf :=
  if wrap (size-mb.size) ≤ 0 then (-E2BIG,mb)
  else
    match (if size < 0 then none else fresh) with
    | none => (-ENOMEM,mb)
    | some extra =>
      let more := (size-mb.size).toNat
      let data := fun i => if i < mb.size then mb.data i else extra i
      if mb.head < mb.tail then
        (0,⟨mb.size+more,memmove data (mb.tail+more) mb.tail (mb.size-mb.tail),mb.head,mb.tail+more⟩)
      else (0,⟨mb.size+more,data,mb.head,mb.tail⟩)

/-- `membuf_extend_by`: no result when the doubling never ends. -/
def membuf_extend_by (mb : Membuf) (by_ : Nat) (max : Int) (fresh : Option (Nat → UInt8)) :
    Option (Int × Membuf) :=
  (doubled_size mb.size by_).map fun doubled =>
    extend_to mb (if max ≠ -1 then min doubled max else doubled) fresh

/-- `membuf_init`: an empty buffer over the given bytes. -/
def membuf_init (buff : Nat → UInt8) (size : Nat) : Membuf := ⟨size,buff,0,0⟩

def count (mb : Membuf) : Nat := if mb.tail ≤ mb.head then mb.head-mb.tail else mb.size-mb.tail+mb.head

def contents (mb : Membuf) : List UInt8 := window mb.data mb.size mb.tail (count mb)

/-- Head and tail lie inside the buffer, and its size is an `int`. -/
structure Inside (mb : Membuf) : Prop where
  head : mb.head < mb.size
  tail : mb.tail < mb.size
  int : mb.size ≤ intMax

theorem contents_length (mb : Membuf) : (contents mb).length = count mb := by simp [contents]

variable {bs : List UInt8} {by_ k : Nat} {mb : Membuf} (len : Nat)

theorem count_lt (inside : Inside mb) : count mb < mb.size := by
  have := inside.head
  have := inside.tail
  unfold count; split <;> omega

theorem clip_le (maxlen : Int) (len : Nat) : clip maxlen len ≤ len := by
  unfold clip; split <;> omega
theorem clip_le_max {maxlen : Int} (limited : 0 ≤ maxlen) : (clip maxlen len : Int) ≤ maxlen := by
  unfold clip; split <;> omega
theorem clip_eq {maxlen : Int} {len : Nat} (limited : 0 ≤ maxlen) : clip maxlen len = min maxlen.toNat len := by
  unfold clip; split <;> omega
theorem clip_all {maxlen : Int} {len : Nat} (free : maxlen < 0) : clip maxlen len = len := by
  unfold clip; split <;> omega

def ahead (mb : Membuf) : Nat := if mb.tail ≤ mb.head then mb.head-mb.tail else mb.size-mb.tail

def taken (mb : Membuf) (k : Nat) : Membuf := { mb with tail := slot mb.size (mb.tail+k) }

theorem ahead_le_count (mb : Membuf) : ahead mb ≤ count mb := by
  unfold ahead count; split <;> omega

theorem ahead_inside (inside : Inside mb) : mb.tail+ahead mb ≤ mb.size := by
  have := inside.head
  have := inside.tail
  unfold ahead; split <;> omega

theorem ahead_pos (inside : Inside mb) (some_left : 0 < count mb) : 0 < ahead mb := by
  have := inside.tail
  simp only [ahead,count] at *
  split_ifs at * <;> omega

theorem membuf_getraw_eq (inside : Inside mb) (maxlen : Int) (update : Bool) :
    membuf_getraw mb maxlen update =
      (if update then taken mb (clip maxlen (ahead mb)) else mb,mb.tail,clip maxlen (ahead mb)) := by
  have headIn := inside.head
  have tailIn := inside.tail
  rcases Nat.lt_trichotomy mb.tail mb.head with before | same | behind
  · have one : ahead mb = mb.head-mb.tail := if_pos (by omega)
    have bound := clip_le maxlen (mb.head-mb.tail)
    have straight : slot mb.size (mb.tail+clip maxlen (mb.head-mb.tail)) =
        mb.tail+clip maxlen (mb.head-mb.tail) := if_pos (by omega)
    simp only [membuf_getraw,before,if_true,one,taken,straight]
  · have none_ahead : ahead mb = 0 := by simp [ahead,same]
    have zero : clip maxlen 0 = 0 := Nat.le_zero.mp (clip_le maxlen 0)
    have still : taken mb 0 = mb := by
      have : slot mb.size mb.tail = mb.tail := if_pos tailIn
      simp [taken,this]
    simp only [membuf_getraw,same,lt_irrefl,if_false,none_ahead,zero,still]
    cases update <;> simp
  · have upTo : ahead mb = mb.size-mb.tail := if_neg (by omega)
    have bound := clip_le maxlen (mb.size-mb.tail)
    have wraps : (if mb.tail+clip maxlen (mb.size-mb.tail) = mb.size then 0
        else mb.tail+clip maxlen (mb.size-mb.tail)) = slot mb.size (mb.tail+clip maxlen (mb.size-mb.tail)) := by
      unfold slot; split <;> split <;> omega
    simp only [membuf_getraw,Nat.lt_asymm behind,if_false,behind,if_true,upTo,taken,wraps]

theorem taken_inside (inside : Inside mb) (le : k ≤ count mb) : Inside (taken mb k) := by
  have := count_lt inside
  have := inside.tail
  exact ⟨inside.head,slot_lt (by omega),inside.int⟩

theorem taken_count (inside : Inside mb) (le : k ≤ count mb) :
    count (taken mb k) = count mb-k := by
  have := inside.head
  have := inside.tail
  simp only [count,taken,slot] at *
  split_ifs at * <;> omega

theorem taken_contents (inside : Inside mb) (le : k ≤ count mb) :
    contents (taken mb k) = (contents mb).drop k := by
  rw [contents,taken_count inside le,contents,
    window_drop mb.data inside.tail (le_of_lt (count_lt inside)) le]
  rfl

theorem load_tail (inside : Inside mb) (le : k ≤ ahead mb) :
    load mb.data mb.tail k = (contents mb).take k := by
  have bound := ahead_inside inside
  have fewer := le_trans le (ahead_le_count mb)
  rw [contents,window_take mb.data inside.tail (le_of_lt (count_lt inside)) fewer,
    window_block mb.data (by omega)]

theorem taken_ahead (inside : Inside mb) :
    ahead (taken mb (ahead mb)) = count (taken mb (ahead mb)) := by
  have := inside.head
  have := inside.tail
  simp only [ahead,count,taken,slot]
  split_ifs <;> omega

theorem taken_taken (inside : Inside mb) {k l : Nat} (le : k+l ≤ count mb) :
    taken (taken mb k) l = taken mb (k+l) := by
  have := count_lt inside
  have := inside.tail
  have same : slot mb.size (slot mb.size (mb.tail+k)+l) = slot mb.size (mb.tail+(k+l)) := by
    simp only [slot]
    split_ifs <;> omega
  simp only [taken,same]

theorem membuf_get_takes (inside : Inside mb) (maxlen : Nat) :
    membuf_get mb maxlen = ((contents mb).take maxlen,taken mb (min maxlen (count mb))) := by
  have fewer := ahead_le_count mb
  obtain ⟨k,first⟩ : ∃ k, k = min maxlen (ahead mb) := ⟨_,rfl⟩
  have clipped : clip maxlen (ahead mb) = k := by simp [clip_eq,first]
  have low : k ≤ count mb := by omega
  have stays := taken_inside inside low
  have second : clip ((maxlen : Int)-(k : Nat)) (ahead (taken mb k)) =
      min maxlen (count mb)-k := by
    rw [clip_eq (by omega)]
    by_cases enough : maxlen ≤ ahead mb
    · omega
    · -- All bytes ahead are taken, so the rest of the queue lies in one piece.
      have all : k = ahead mb := by omega
      have counted := taken_count inside fewer
      rw [all,taken_ahead inside,counted]
      omega
  have oldest : load mb.data mb.tail k = (contents mb).take k :=
    load_tail inside (by omega)
  have length := contents_length mb
  unfold membuf_get
  rw [membuf_get_from,membuf_getraw_eq inside,clipped]
  by_cases none_taken : k = 0
  · have nothing : min maxlen (count mb) = 0 := by
      have := ahead_pos inside
      omega
    simp only [none_taken,nothing,if_true,load]
    have empty : (contents mb).take maxlen = [] := by
      rw [take_eq_nil_iff,← length_eq_zero_iff]
      omega
    simp [empty]
  have later := taken_taken inside (k := k) (l := min maxlen (count mb)-k)
    (by omega)
  have rest := load_tail stays (k := min maxlen (count mb)-k) (by
    have := clip_le ((maxlen : Int)-(k : Nat)) (ahead (taken mb k))
    omega)
  rw [taken_contents inside low] at rest
  have whole : k+(min maxlen (count mb)-k) = min maxlen (count mb) := by
    omega
  rw [whole] at later
  have bytes : (contents mb).take k ++
      ((contents mb).drop k).take (min maxlen (count mb)-k) =
        (contents mb).take maxlen := by
    rw [← take_add,whole,← length,take_eq_take_iff]
    omega
  simp only [none_taken,if_false,if_true]
  rw [membuf_get_from,membuf_getraw_eq stays,second]
  simp only [if_true,nil_append,oldest,rest,bytes,later,membuf_get_from,ite_self]

def room (mb : Membuf) : Nat :=
  if mb.tail ≤ mb.head then (if mb.tail = 0 then mb.size-mb.head-1 else mb.size-mb.head) else mb.tail-mb.head-1

/-- The bytes that fit in all: one cell of the ring stays free. -/
def spare (mb : Membuf) : Nat := mb.size-1-count mb

/-- The buffer once the head has moved over `k` bytes. -/
def advanced (mb : Membuf) (k : Nat) : Membuf := { mb with head := slot mb.size (mb.head+k) }

/-- The buffer once `bs` is written at its head. -/
def filled (mb : Membuf) (bs : List UInt8) : Membuf :=
  { advanced mb bs.length with data := store mb.data mb.head bs }

theorem room_le_spare (inside : Inside mb) : room mb ≤ spare mb := by
  have := inside.head
  have := inside.tail
  simp only [room,spare,count]
  split_ifs <;> omega

theorem room_pos (inside : Inside mb) (fits : 0 < spare mb) : 0 < room mb := by
  have := inside.head
  have := inside.tail
  simp only [room,spare,count] at *
  split_ifs at * <;> omega

theorem room_inside (inside : Inside mb) : mb.head+room mb ≤ mb.size := by
  have := inside.head
  have := inside.tail
  simp only [room]
  split_ifs <;> omega

theorem membuf_putraw_eq (inside : Inside mb) (maxlen : Int) (update : Bool) :
    membuf_putraw mb maxlen update =
      (if update then advanced mb (clip maxlen (room mb)) else mb,mb.head,clip maxlen (room mb)) := by
  have headIn := inside.head
  have tailIn := inside.tail
  have memory : ¬ mb.size = 0 := by omega
  by_cases split_free : mb.tail ≤ mb.head
  · by_cases extra : (maxlen < 0 ∨ (clip maxlen (mb.size-mb.head-1) : Int) < maxlen) ∧ mb.tail ≠ 0
    · have upTo : room mb = mb.size-mb.head := by simp [room,split_free,extra.2]
      have more : clip maxlen (mb.size-mb.head) = clip maxlen (mb.size-mb.head-1)+1 := by
        have wanted := extra.1
        simp only [clip] at *
        split_ifs at * <;> omega
      have whole : clip maxlen (mb.size-mb.head-1)+1 = mb.size-mb.head := by
        have wanted := extra.1
        simp only [clip] at *
        split_ifs at * <;> omega
      have wraps : slot mb.size (mb.head+(clip maxlen (mb.size-mb.head-1)+1)) = 0 := by
        rw [whole]
        simp only [slot]
        split_ifs <;> omega
      simp only [membuf_putraw,memory,if_false,split_free,if_true,extra,upTo,more,advanced,wraps]
      cases update <;> simp [extra.2]
    · have same : clip maxlen (room mb) = clip maxlen (mb.size-mb.head-1) := by
        by_cases start : mb.tail = 0
        · simp [room,start]
        · have unwanted : ¬ (maxlen < 0 ∨ (clip maxlen (mb.size-mb.head-1) : Int) < maxlen) :=
            fun wanted => extra ⟨wanted,start⟩
          simp only [room,split_free,start,if_true,if_false,clip] at *
          split_ifs at * <;> omega
      have bound := clip_le maxlen (mb.size-mb.head-1)
      have straight : slot mb.size (mb.head+clip maxlen (mb.size-mb.head-1)) =
          mb.head+clip maxlen (mb.size-mb.head-1) := if_pos (by omega)
      simp only [membuf_putraw,memory,if_false,split_free,if_true,extra,same,advanced,straight]
  · have between : room mb = mb.tail-mb.head-1 := by simp [room,split_free]
    have bound := clip_le maxlen (mb.tail-mb.head-1)
    have straight : slot mb.size (mb.head+clip maxlen (mb.tail-mb.head-1)) =
        mb.head+clip maxlen (mb.tail-mb.head-1) := if_pos (by omega)
    simp only [membuf_putraw,memory,if_false,split_free,between,advanced,straight]

theorem advanced_count (inside : Inside mb) (le : k ≤ room mb) :
    count (advanced mb k) = count mb+k := by
  have := inside.head
  have := inside.tail
  simp only [count,advanced,slot,room] at *
  split_ifs at * <;> omega

theorem filled_inside (inside : Inside mb) (le : bs.length ≤ room mb) :
    Inside (filled mb bs) := by
  have := room_inside inside
  have := inside.head
  exact ⟨slot_lt (by omega),inside.tail,inside.int⟩

theorem filled_spare (inside : Inside mb) (le : bs.length ≤ room mb) :
    spare (filled mb bs) = spare mb-bs.length := by
  have counted : count (filled mb bs) = count mb+bs.length := advanced_count inside le
  have sized : (filled mb bs).size = mb.size := rfl
  unfold spare
  rw [counted,sized]
  omega

theorem filled_room (inside : Inside mb) (full : bs.length = room mb) :
    room (filled mb bs) = spare (filled mb bs) := by
  have := inside.head
  have := inside.tail
  simp only [room,spare,count,filled,advanced,slot] at *
  split_ifs at * <;> omega

theorem filled_contents (inside : Inside mb) (le : bs.length ≤ room mb) :
    contents (filled mb bs) = contents mb ++ bs := by
  have headIn := inside.head
  have tailIn := inside.tail
  have bound := room_inside inside
  have more := le_trans le (room_le_spare inside)
  have counted : count (filled mb bs) = count mb+bs.length := advanced_count inside le
  have fewer := count_lt inside
  have atHead : slot mb.size (mb.tail+count mb) = mb.head := by
    simp only [slot,count]
    split_ifs <;> omega
  have old : window (store mb.data mb.head bs) mb.size mb.tail (count mb) = contents mb := by
    apply window_congr
    intro i before
    -- The positions of the queue stay clear of the room at the head.
    have apart : slot mb.size (mb.tail+i) < mb.head ∨ mb.head+bs.length ≤ slot mb.size (mb.tail+i) := by
      simp only [slot,count,room] at *
      split_ifs at * <;> omega
    rcases apart with low | high
    · exact store_below mb.data bs low
    · exact store_above mb.data bs high
  have new : window (store mb.data mb.head bs) mb.size mb.head bs.length = bs := by
    rw [window_block _ (by omega),load_store]
  rw [contents,counted]
  change window (store mb.data mb.head bs) mb.size mb.tail (count mb+bs.length) = _
  unfold spare at more
  rw [window_append _ tailIn (by omega),atHead,old,new]

theorem membuf_put_round (inside : Inside mb) (rounds : Nat) (buff : List UInt8) (written : Nat) :
    membuf_put_from (rounds+1) mb buff written =
      membuf_put_from rounds (filled mb (buff.take (min buff.length (room mb))))
        (buff.drop (min buff.length (room mb))) (written+min buff.length (room mb)) := by
  have wanted : clip buff.length (room mb) = min buff.length (room mb) := by simp [clip_eq]
  have length : (buff.take (min buff.length (room mb))).length = min buff.length (room mb) := by simp
  rw [membuf_put_from,membuf_putraw_eq inside,wanted]
  simp only [if_true,filled,length,advanced]

theorem membuf_put_appends (inside : Inside mb) (buff : List UInt8) :
    ∃ after, membuf_put mb buff = (min buff.length (spare mb),after) ∧ Inside after ∧ after.size = mb.size ∧
      contents after = contents mb ++ buff.take (spare mb) := by
  have enough := room_le_spare inside
  set k := min buff.length (room mb) with kIs
  have firstLength : (buff.take k).length = k := by simp [kIs]
  have firstFits : (buff.take k).length ≤ room mb := by omega
  set mid := filled mb (buff.take k) with midIs
  have midInside : Inside mid := filled_inside inside firstFits
  have midSpare : spare mid = spare mb-k := by rw [midIs,filled_spare inside firstFits,firstLength]
  set l := min (buff.drop k).length (room mid) with lIs
  have total : k+l = min buff.length (spare mb) := by
    have dropped : (buff.drop k).length = buff.length-k := by simp
    by_cases all : buff.length ≤ room mb
    · omega
    · have whole : (buff.take k).length = room mb := by omega
      have one := filled_room inside whole
      rw [← midIs] at one
      omega
  have secondLength : ((buff.drop k).take l).length = l := by rw [length_take]; omega
  have secondFits : ((buff.drop k).take l).length ≤ room mid := by omega
  refine ⟨filled mid ((buff.drop k).take l),?_,filled_inside midInside secondFits,rfl,?_⟩
  · unfold membuf_put
    rw [membuf_put_round inside,membuf_put_round midInside,membuf_put_from]
    simp only [zero_add,← kIs,← lIs,total]
  · rw [filled_contents midInside secondFits,midIs,filled_contents inside firstFits,append_assoc,
      ← take_add,total,take_eq_take_iff.mpr (show min (min buff.length (spare mb)) buff.length =
        min (spare mb) buff.length by omega)]

theorem membuf_avail_eq (inside : Inside mb) : membuf_avail mb = count mb := by
  have fewer := ahead_le_count mb
  have stays := taken_inside inside fewer
  have all : clip (-1) (ahead mb) = ahead mb := clip_all (by decide)
  have rest : clip (-1) (ahead (taken mb (ahead mb))) = count mb-ahead mb := by
    rw [clip_all (by decide),taken_ahead inside,taken_count inside fewer]
  unfold membuf_avail
  rw [membuf_getraw_eq inside,all]
  simp only [if_true]
  rw [membuf_getraw_eq stays,rest]
  simp only
  omega

theorem membuf_free_eq (inside : Inside mb) : membuf_free mb = spare mb := by
  have memory : ¬ mb.size = 0 := by have := inside.head; omega
  simp only [membuf_free,memory,if_false,membuf_avail_eq inside,spare]

theorem membuf_makecontig_keeps (inside : Inside mb) :
    Inside (membuf_makecontig mb).2 ∧ (membuf_makecontig mb).2.size = mb.size ∧
      contents (membuf_makecontig mb).2 = contents mb := by
  have headIn := inside.head
  have tailIn := inside.tail
  by_cases wrapped : mb.head < mb.tail
  · by_cases tight : mb.tail ≤ mb.head+(mb.size-mb.tail)
    · simp only [membuf_makecontig,wrapped,tight,if_true]
      exact ⟨inside,trivial,trivial⟩
    simp only [membuf_makecontig,wrapped,tight,if_true,if_false]
    refine ⟨⟨by simp only; omega,by simp only; omega,inside.int⟩,trivial,?_⟩
    have counted : count mb = mb.size-mb.tail+mb.head := if_neg (by omega)
    rw [contents,contents,counted,memcpy_eq_memmove _ (Or.inl (Nat.zero_le _))]
    simp only [count,Nat.zero_le,if_true,Nat.sub_zero]
    apply window_congr
    intro i before
    by_cases top : i < mb.size-mb.tail
    · -- The older part comes down to the start.
      have here : slot mb.size (0+i) = i := by simp only [slot]; split_ifs <;> omega
      have there : slot mb.size (mb.tail+i) = mb.tail+i := if_pos (by omega)
      have down : 0 ≤ i ∧ i < 0+(mb.size-mb.tail) := by omega
      have clear : ¬ (mb.size-mb.tail ≤ mb.tail+(i-0) ∧ mb.tail+(i-0) < mb.size-mb.tail+mb.head) := by omega
      rw [here,there]
      unfold memmove
      rw [if_pos down,if_neg clear,Nat.sub_zero]
    · -- The newer part went up behind it.
      have here : slot mb.size (0+i) = i := by simp only [slot]; split_ifs <;> omega
      have there : slot mb.size (mb.tail+i) = 0+(i-(mb.size-mb.tail)) := by
        simp only [slot]; split_ifs <;> omega
      have clear : ¬ (0 ≤ i ∧ i < 0+(mb.size-mb.tail)) := by omega
      have up : mb.size-mb.tail ≤ i ∧ i < mb.size-mb.tail+mb.head := by omega
      rw [here,there]
      unfold memmove
      rw [if_neg clear,if_pos up]
  · simp only [membuf_makecontig,wrapped,if_false]
    refine ⟨⟨by simp only; omega,by simp only; omega,inside.int⟩,trivial,?_⟩
    have counted : count mb = mb.head-mb.tail := if_pos (by omega)
    rw [contents,contents,counted,memcpy_eq_memmove _ (Or.inl (Nat.zero_le _))]
    simp only [count,Nat.zero_le,if_true,Nat.sub_zero]
    apply window_congr
    intro i before
    have here : slot mb.size (0+i) = i := by simp only [slot]; split_ifs <;> omega
    have there : slot mb.size (mb.tail+i) = mb.tail+i := if_pos (by omega)
    have down : 0 ≤ i ∧ i < 0+(mb.head-mb.tail) := by omega
    rw [here,there]
    unfold memmove
    rw [if_pos down,Nat.sub_zero]

/-- Some doubling of the size, as an `int`, reaches the wanted size. -/
def DoublingFits (orig by_ : Nat) : Prop := ∃ k, wrap (orig+by_) ≤ wrap (orig*2^k)

theorem double_reaches {target : Int} {rounds : Nat} {size doubled : Int} (small : size ≤ intMax)
    (ends : double target rounds size = some doubled) : target ≤ doubled ∧ doubled ≤ intMax := by
  induction rounds generalizing size with
  | zero =>
    rw [double] at ends
    split at ends
    · contradiction
    · cases ends; exact ⟨by omega,small⟩
  | succ rounds ih =>
    rw [double] at ends
    split at ends
    · exact ih (wrap_le _) ends
    · cases ends; exact ⟨by omega,small⟩

theorem doubled_size_le {orig by_ : Nat} {doubled : Int} (int : orig ≤ intMax)
    (ends : doubled_size orig by_ = some doubled) : doubled ≤ intMax :=
  (double_reaches (Int.ofNat_le.mpr int) ends).2

theorem double_ends (target size : Int) (rounds : Nat) :
    (∃ doubled, double target rounds (wrap size) = some doubled) ↔ ∃ k ≤ rounds, target ≤ wrap (size*2^k) := by
  induction rounds generalizing size with
  | zero =>
    rw [double]
    constructor
    · rintro ⟨doubled,ends⟩
      split at ends
      · contradiction
      · exact ⟨0,le_refl 0,by simp; omega⟩
    · rintro ⟨k,le,reaches⟩
      obtain rfl := Nat.le_zero.mp le
      have there : ¬ wrap size < target := by simp at reaches; omega
      exact ⟨wrap size,if_neg there⟩
  | succ rounds ih =>
    have later (k : Nat) : size*2*2^k = size*2^(k+1) := by ring
    rw [double]
    by_cases less : wrap size < target
    · rw [if_pos less,wrap_mul_two,ih]
      constructor
      · rintro ⟨k,le,reaches⟩
        exact ⟨k+1,by omega,by rw [← later]; exact reaches⟩
      · rintro ⟨k,le,reaches⟩
        cases k with
        | zero => simp at reaches; omega
        | succ k => exact ⟨k,by omega,by rw [later]; exact reaches⟩
    · rw [if_neg less]
      exact ⟨fun _ => ⟨0,by omega,by simp; omega⟩,fun _ => ⟨wrap size,rfl⟩⟩

theorem double_ends_iff {orig by_ : Nat} (int : orig ≤ intMax) :
    (∃ doubled, doubled_size orig by_ = some doubled) ↔ DoublingFits orig by_ := by
  have ends := double_ends (wrap (orig+by_)) orig 32
  rw [wrap_of_int int] at ends
  unfold doubled_size
  rw [ends]
  constructor
  · rintro ⟨k,_,reaches⟩
    exact ⟨k,reaches⟩
  · rintro ⟨k,reaches⟩
    by_cases early : k ≤ 32
    · exact ⟨k,early,reaches⟩
    · obtain ⟨more,rfl⟩ : ∃ more, k = 32+more := ⟨k-32,by omega⟩
      refine ⟨32,le_refl 32,?_⟩
      rw [wrap_vanishes] at reaches
      rw [show (32 : Nat) = 32+0 from rfl,wrap_vanishes]
      exact reaches

theorem extend_contents (inside : Inside mb) (more : Nat) (extra : Nat → UInt8) :
    contents (if mb.head < mb.tail then
        ⟨mb.size+more,memmove (fun i => if i < mb.size then mb.data i else extra i) (mb.tail+more) mb.tail
          (mb.size-mb.tail),mb.head,mb.tail+more⟩
      else ⟨mb.size+more,fun i => if i < mb.size then mb.data i else extra i,mb.head,mb.tail⟩) = contents mb := by
  have headIn := inside.head
  have tailIn := inside.tail
  by_cases wrapped : mb.head < mb.tail
  · have counted : count mb = mb.size-mb.tail+mb.head := if_neg (by omega)
    have recounted : mb.size+more-(mb.tail+more)+mb.head = mb.size-mb.tail+mb.head := by omega
    have behind : ¬ mb.tail+more ≤ mb.head := by omega
    rw [if_pos wrapped,contents,contents,counted]
    simp only [count,behind,if_false,recounted]
    apply window_congr
    intro i before
    by_cases top : i < mb.size-mb.tail
    · have here : slot (mb.size+more) (mb.tail+more+i) = mb.tail+more+i := if_pos (by omega)
      have there : slot mb.size (mb.tail+i) = mb.tail+i := if_pos (by omega)
      have moved : mb.tail+more ≤ mb.tail+more+i ∧ mb.tail+more+i < mb.tail+more+(mb.size-mb.tail) := by omega
      have from_ : mb.tail+(mb.tail+more+i-(mb.tail+more)) = mb.tail+i := by omega
      have old : mb.tail+i < mb.size := by omega
      rw [here,there]
      unfold memmove
      rw [if_pos moved,from_]
      exact if_pos old
    · have here : slot (mb.size+more) (mb.tail+more+i) = mb.tail+i-mb.size := by
        simp only [slot]; split_ifs <;> omega
      have there : slot mb.size (mb.tail+i) = mb.tail+i-mb.size := by
        simp only [slot]; split_ifs <;> omega
      have clear : ¬ (mb.tail+more ≤ mb.tail+i-mb.size ∧
          mb.tail+i-mb.size < mb.tail+more+(mb.size-mb.tail)) := by omega
      have old : mb.tail+i-mb.size < mb.size := by omega
      rw [here,there]
      unfold memmove
      rw [if_neg clear]
      exact if_pos old
  · have counted : count mb = mb.head-mb.tail := if_pos (by omega)
    have straight : mb.tail ≤ mb.head := by omega
    rw [if_neg wrapped,contents,contents,counted]
    simp only [count,straight,if_true]
    apply window_congr
    intro i before
    have here : slot (mb.size+more) (mb.tail+i) = mb.tail+i := if_pos (by omega)
    have there : slot mb.size (mb.tail+i) = mb.tail+i := if_pos (by omega)
    have old : mb.tail+i < mb.size := by omega
    rw [here,there,if_pos old]

theorem extend_to_keeps (inside : Inside mb) {size : Int} (int : size ≤ intMax)
    (fresh : Option (Nat → UInt8)) :
    Inside (extend_to mb size fresh).2 ∧ contents (extend_to mb size fresh).2 = contents mb ∧
      ((extend_to mb size fresh).1 = 0 ∧ mb.size < (extend_to mb size fresh).2.size ∨
        ((extend_to mb size fresh).1 = -E2BIG ∨ (extend_to mb size fresh).1 = -ENOMEM) ∧
          (extend_to mb size fresh).2 = mb) := by
  have headIn := inside.head
  have tailIn := inside.tail
  unfold extend_to
  by_cases bigger : wrap (size-mb.size) ≤ 0
  · rw [if_pos bigger]
    exact ⟨inside,rfl,.inr ⟨.inl rfl,rfl⟩⟩
  rw [if_neg bigger]
  cases given : (if size < 0 then none else fresh) with
  | none => exact ⟨inside,rfl,.inr ⟨.inr rfl,rfl⟩⟩
  | some extra =>
    have positive : 0 ≤ size := by
      by_contra negative
      rw [if_pos (by omega)] at given
      contradiction
    have grows : 0 < size-mb.size := by
      have current := inside.int
      have same : wrap (size-mb.size) = size-mb.size := by
        unfold intMax at int current
        apply Int.bmod_eq_of_le <;> omega
      omega
    have kept := extend_contents inside (size-mb.size).toNat extra
    by_cases wrapped : mb.head < mb.tail
    · rw [if_pos wrapped] at kept
      simp only [wrapped,if_true]
      refine ⟨⟨?_,?_,?_⟩,kept,.inl ⟨trivial,by omega⟩⟩ <;> dsimp only <;> omega
    · rw [if_neg wrapped] at kept
      simp only [wrapped,if_false]
      refine ⟨⟨?_,?_,?_⟩,kept,.inl ⟨trivial,by omega⟩⟩ <;> dsimp only <;> omega

theorem membuf_extend_by_ends (inside : Inside mb) (max : Int)
    (fresh : Option (Nat → UInt8)) :
    (∃ result, membuf_extend_by mb by_ max fresh = some result) ↔ DoublingFits mb.size by_ := by
  rw [← double_ends_iff inside.int]
  constructor
  · rintro ⟨result,ends⟩
    obtain ⟨doubled,sized,_⟩ := map_eq_some_iff.mp ends
    exact ⟨doubled,sized⟩
  · rintro ⟨doubled,sized⟩
    exact ⟨_,map_eq_some_iff.mpr ⟨doubled,sized,rfl⟩⟩

theorem membuf_extend_by_keeps (inside : Inside mb) {max : Int}
    {fresh : Option (Nat → UInt8)} {code : Int} {after : Membuf}
    (ends : membuf_extend_by mb by_ max fresh = some (code,after)) :
    Inside after ∧ contents after = contents mb ∧
      (code = 0 ∧ mb.size < after.size ∨ (code = -E2BIG ∨ code = -ENOMEM) ∧ after = mb) := by
  obtain ⟨doubled,sized,extends_⟩ := map_eq_some_iff.mp ends
  have bound := doubled_size_le inside.int sized
  have limited : (if max ≠ -1 then min doubled max else doubled) ≤ (intMax : Int) := by split_ifs <;> omega
  have keeps := extend_to_keeps inside limited fresh
  rw [extends_] at keeps
  exact keeps

/-- The calls on a buffer. `putraw` carries the bytes that the caller writes
    into the room it gets, `extend_by` the memory that `realloc` finds. -/
inductive Op where
  | put (buff : List UInt8)
  | get (maxlen : Nat)
  | putbyte (ch : UInt8)
  | getbyte
  | peekbyte
  | putraw (maxlen : Int) (fill : Nat → UInt8)
  | getraw (maxlen : Int)
  | makecontig
  | extend_by (by_ : Nat) (max : Int) (fresh : Option (Nat → UInt8))

inductive Out where
  | count (n : Nat)
  | bytes (bs : List UInt8)
  | flag (b : Bool)
  | code (c : Int)

def step (mb : Membuf) : Op → Option (Out × Membuf)
  | .put buff => let (n,after) := membuf_put mb buff; some (.count n,after)
  | .get maxlen => let (bs,after) := membuf_get mb maxlen; some (.bytes bs,after)
  | .putbyte ch => let (b,after) := membuf_putbyte mb ch; some (.flag b,after)
  | .getbyte => let (c,after) := membuf_getbyte mb; some (.code c,after)
  | .peekbyte => let (c,after) := membuf_peekbyte mb; some (.code c,after)
  | .putraw maxlen fill =>
    let (after,offset,len) := membuf_putraw mb maxlen true
    some (.count len,{ after with data := store after.data offset (load fill 0 len) })
  | .getraw maxlen =>
    let (after,offset,len) := membuf_getraw mb maxlen true
    some (.bytes (load mb.data offset len),after)
  | .makecontig => let (b,after) := membuf_makecontig mb; some (.flag b,after)
  | .extend_by by_ max fresh => (membuf_extend_by mb by_ max fresh).map (fun r => (.code r.1,r.2))

def next (mb : Membuf) (op : Op) : Membuf := ((step mb op).map Prod.snd).getD mb

/-- The oldest byte of a queue as an `int`, or -1. -/
def front : List UInt8 → Int
  | [] => -1
  | b :: _ => b.toNat

/-- What a call means for a byte queue `q` in a buffer of size `n`: what it
    returns, and the size and the queue after it. -/
def Queued (n : Nat) (q : List UInt8) (op : Op) (out : Out) (n' : Nat) (q' : List UInt8) : Prop :=
  match op with
  | .put buff => out = .count (min buff.length (n-1-q.length)) ∧ n' = n ∧ q' = q ++ buff.take (n-1-q.length)
  | .get maxlen => out = .bytes (q.take maxlen) ∧ n' = n ∧ q' = q.drop maxlen
  | .putbyte ch => out = .flag (decide (q.length < n-1)) ∧ n' = n ∧ q' = if q.length < n-1 then q ++ [ch] else q
  | .getbyte => out = .code (front q) ∧ n' = n ∧ q' = q.drop 1
  | .peekbyte => out = .code (front q) ∧ n' = n ∧ q' = q
  | .putraw maxlen fill => ∃ k, out = .count k ∧ k ≤ n-1-q.length ∧ (0 ≤ maxlen → (k : Int) ≤ maxlen) ∧
      (k = 0 → q.length = n-1 ∨ maxlen = 0) ∧ n' = n ∧ q' = q ++ load fill 0 k
  | .getraw maxlen => ∃ k, out = .bytes (q.take k) ∧ k ≤ q.length ∧ (0 ≤ maxlen → (k : Int) ≤ maxlen) ∧
      (k = 0 → q = [] ∨ maxlen = 0) ∧ n' = n ∧ q' = q.drop k
  | .makecontig => (∃ b, out = .flag b) ∧ n' = n ∧ q' = q
  | .extend_by _ _ _ => (out = .code 0 ∧ n < n' ∨ (out = .code (-E2BIG) ∨ out = .code (-ENOMEM)) ∧ n' = n) ∧ q' = q

/-- A buffer keeps its accounts: head and tail lie inside it, and the bytes to
    read and the bytes that fit make up all but one cell. -/
def Accounts (mb : Membuf) : Prop :=
  Inside mb ∧ membuf_avail mb = (contents mb).length ∧ membuf_avail mb+membuf_free mb = membuf_size mb-1

/-- A call has a result, which is what it means for the queue. -/
def Refines (mb : Membuf) (op : Op) : Prop :=
  ∃ out after, step mb op = some (out,after) ∧ Accounts after ∧
    Queued mb.size (contents mb) op out after.size (contents after)

def Fits (mb : Membuf) : Op → Prop
  | .extend_by by_ _ _ => DoublingFits mb.size by_
  | _ => True

theorem accounts (inside : Inside mb) : Accounts mb := by
  have := count_lt inside
  refine ⟨inside,by rw [membuf_avail_eq inside,contents_length],?_⟩
  rw [membuf_avail_eq inside,membuf_free_eq inside,membuf_size,spare]
  omega

theorem front_eq (inside : Inside mb) :
    front (contents mb) = if count mb = 0 then -1 else ((mb.data mb.tail).toNat : Int) := by
  have length := contents_length mb
  by_cases empty : count mb = 0
  · rw [if_pos empty,length_eq_zero_iff.mp (length.trans empty)]
    rfl
  have oldest := load_tail inside (k := 1) (ahead_pos inside (by omega))
  rw [if_neg empty]
  cases held : contents mb with
  | nil => rw [held] at length; simp at length; omega
  | cons b rest =>
    rw [held] at oldest
    simp [load] at oldest
    simp [front,oldest]

theorem clip_one : clip 1 len = if len = 0 then 0 else 1 := by
  rw [clip_eq (by decide)]; split_ifs <;> omega

theorem putbyte_refines (inside : Inside mb) (ch : UInt8) : Refines mb (.putbyte ch) := by
  have length := contents_length mb
  have enough := room_le_spare inside
  have progress := room_pos inside
  unfold spare at enough progress
  by_cases full : room mb = 0
  · have raw := membuf_putraw_eq inside 1 true
    rw [clip_one,if_pos full] at raw
    have still : advanced mb 0 = mb := by
      have : slot mb.size mb.head = mb.head := if_pos inside.head
      simp [advanced,this]
    rw [still] at raw
    refine ⟨.flag false,mb,by simp [step,membuf_putbyte,raw],accounts inside,?_⟩
    have nothing : ¬ (contents mb).length < mb.size-1 := by omega
    simp [Queued,nothing]
  · have raw := membuf_putraw_eq inside 1 true
    rw [clip_one,if_neg full] at raw
    have fits : [ch].length ≤ room mb := by simp; omega
    refine ⟨.flag true,filled mb [ch],by simp [step,membuf_putbyte,raw,filled,advanced],
      accounts (filled_inside inside fits),?_⟩
    have some_room : (contents mb).length < mb.size-1 := by omega
    have appended := filled_contents inside fits
    refine ⟨by simp [some_room],rfl,?_⟩
    rw [if_pos some_room,appended]

theorem getbyte_refines (inside : Inside mb) : Refines mb .getbyte := by
  have raw := membuf_getraw_eq inside 1 true
  have first := front_eq inside
  have fewer := ahead_le_count mb
  rw [clip_one] at raw
  by_cases empty : count mb = 0
  · have none_ahead : ahead mb = 0 := by omega
    rw [if_pos none_ahead] at raw
    have emptied := taken_contents inside (k := 0) (by omega)
    have held : contents mb = [] := length_eq_zero_iff.mp ((contents_length mb).trans empty)
    refine ⟨.code (-1),taken mb 0,by simp [step,membuf_getbyte,raw],accounts (taken_inside inside (by omega)),?_⟩
    refine ⟨by rw [held]; rfl,rfl,?_⟩
    rw [emptied,held]
    rfl
  · have some_ahead : ¬ ahead mb = 0 := by have := ahead_pos inside (by omega); omega
    rw [if_neg some_ahead] at raw
    have rest := taken_contents inside (k := 1) (by omega)
    refine ⟨.code (mb.data mb.tail).toNat,taken mb 1,by simp [step,membuf_getbyte,raw],
      accounts (taken_inside inside (by omega)),?_⟩
    rw [if_neg empty] at first
    exact ⟨by rw [first],rfl,rest⟩

theorem peekbyte_refines (inside : Inside mb) : Refines mb .peekbyte := by
  have raw := membuf_getraw_eq inside 1 false
  have first := front_eq inside
  have fewer := ahead_le_count mb
  rw [clip_one] at raw
  by_cases empty : count mb = 0
  · have none_ahead : ahead mb = 0 := by omega
    rw [if_pos none_ahead] at raw
    rw [if_pos empty] at first
    exact ⟨.code (-1),mb,by simp [step,membuf_peekbyte,raw],accounts inside,by simp [Queued,first]⟩
  · have some_ahead : ¬ ahead mb = 0 := by have := ahead_pos inside (by omega); omega
    rw [if_neg some_ahead] at raw
    rw [if_neg empty] at first
    exact ⟨.code (mb.data mb.tail).toNat,mb,by simp [step,membuf_peekbyte,raw],accounts inside,
      by simp [Queued,first]⟩

theorem putraw_refines (inside : Inside mb) (maxlen : Int) (fill : Nat → UInt8) :
    Refines mb (.putraw maxlen fill) := by
  have raw := membuf_putraw_eq inside maxlen true
  have length := contents_length mb
  have enough := room_le_spare inside
  have progress := room_pos inside
  have fewer := count_lt inside
  unfold spare at enough progress
  set k := clip maxlen (room mb) with kIs
  have kLe : k ≤ room mb := clip_le _ _
  have fits : (load fill 0 k).length ≤ room mb := by simpa using kLe
  refine ⟨.count k,filled mb (load fill 0 k),by simp [step,raw,filled,advanced],
    accounts (filled_inside inside fits),k,rfl,by omega,fun limited => clip_le_max _ limited,?_,rfl,
    filled_contents inside fits⟩
  intro zero
  by_cases unlimited : maxlen < 0
  · rw [clip_all unlimited] at kIs; omega
  · rw [clip_eq (by omega)] at kIs; omega

theorem getraw_refines (inside : Inside mb) (maxlen : Int) : Refines mb (.getraw maxlen) := by
  have raw := membuf_getraw_eq inside maxlen true
  have length := contents_length mb
  have fewer := ahead_le_count mb
  have progress := ahead_pos inside
  set k := clip maxlen (ahead mb) with kIs
  have kLe : k ≤ ahead mb := clip_le _ _
  refine ⟨.bytes ((contents mb).take k),taken mb k,by simp [step,raw,load_tail inside kLe],
    accounts (taken_inside inside (by omega)),k,rfl,by omega,fun limited => clip_le_max _ limited,?_,rfl,
    taken_contents inside (by omega)⟩
  intro zero
  rw [← length_eq_zero_iff,length]
  by_cases unlimited : maxlen < 0
  · rw [clip_all unlimited] at kIs; omega
  · rw [clip_eq (by omega)] at kIs; omega

theorem refines_of_fits (inside : Inside mb) (op : Op) (fits : Fits mb op) : Refines mb op := by
  have length := contents_length mb
  cases op with
  | put buff =>
    obtain ⟨after,runs,stays,sized,appended⟩ := membuf_put_appends inside buff
    unfold spare at runs appended
    exact ⟨.count (min buff.length (mb.size-1-count mb)),after,by simp [step,runs],accounts stays,
      by simp [Queued,length,sized,appended]⟩
  | get maxlen =>
    have runs := membuf_get_takes inside maxlen
    have rest := taken_contents inside (k := min maxlen (count mb)) (by omega)
    refine ⟨.bytes ((contents mb).take maxlen),taken mb (min maxlen (count mb)),by simp [step,runs],
      accounts (taken_inside inside (by omega)),rfl,rfl,?_⟩
    rw [rest,← length]
    by_cases less : maxlen ≤ (contents mb).length
    · rw [min_eq_left less]
    · rw [Nat.min_eq_right (by omega),drop_length,drop_eq_nil_of_le (by omega)]
  | putbyte ch => exact putbyte_refines inside ch
  | getbyte => exact getbyte_refines inside
  | peekbyte => exact peekbyte_refines inside
  | putraw maxlen fill => exact putraw_refines inside maxlen fill
  | getraw maxlen => exact getraw_refines inside maxlen
  | makecontig =>
    obtain ⟨stays,sized,kept⟩ := membuf_makecontig_keeps inside
    exact ⟨.flag (membuf_makecontig mb).1,(membuf_makecontig mb).2,rfl,accounts stays,⟨_,rfl⟩,sized,kept⟩
  | extend_by by_ max fresh =>
    obtain ⟨⟨code,after⟩,runs⟩ := (membuf_extend_by_ends inside max fresh).mpr fits
    obtain ⟨stays,kept,cases_⟩ := membuf_extend_by_keeps inside runs
    refine ⟨.code code,after,by simp [step,runs],accounts stays,?_,kept⟩
    rcases cases_ with ⟨rfl,grown⟩ | ⟨rfl | rfl,rfl⟩
    · exact .inl ⟨rfl,grown⟩
    · exact .inr ⟨.inl rfl,rfl⟩
    · exact .inr ⟨.inr rfl,rfl⟩

theorem refines_iff (inside : Inside mb) (op : Op) : Refines mb op ↔ Fits mb op := by
  refine ⟨?_,refines_of_fits inside op⟩
  rintro ⟨out,after,runs,_⟩
  cases op with
  | extend_by by_ max fresh =>
    simp only [step,map_eq_some_iff] at runs
    obtain ⟨result,ends,_⟩ := runs
    exact (membuf_extend_by_ends inside max fresh).mp ⟨result,ends⟩
  | _ => trivial

theorem next_inside (inside : Inside mb) (op : Op) (fits : Fits mb op) : Inside (next mb op) := by
  obtain ⟨out,after,runs,⟨stays,_⟩,_⟩ := refines_of_fits inside op fits
  simpa [next,runs] using stays

/-- A buffer of any size from 1 on is a bounded byte queue: in a run of calls
    from an empty buffer every call has a result, keeps the accounts and is
    what it means for the queue, exactly when no extension asks for a size that
    no doubling of the current size reaches as an `int`. -/
theorem membuf_is_bounded_queue (buff : Nat → UInt8) {n : Nat} (positive : 1 ≤ n) (int : n ≤ intMax) (ops : List Op) :
    Accounts (membuf_init buff n) ∧ contents (membuf_init buff n) = [] ∧
      (Along next Refines (membuf_init buff n) ops ↔ Along next Fits (membuf_init buff n) ops) := by
  have start : Inside (membuf_init buff n) := ⟨positive,positive,int⟩
  exact ⟨accounts start,rfl,
    along_iff (fun mb op inside fits => next_inside inside op fits) (fun mb op inside => refines_iff inside op) start⟩

/-- Four bytes offered to a buffer of four, a compaction and an extension. -/
theorem membuf_four_is_bounded_queue :
    Along next Refines (membuf_init (fun _ => 0) 4)
      [.put [1,2,3,4],.get 2,.put [5,6],.makecontig,.extend_by 4 (-1) (some (fun _ => 0)),.getbyte] :=
  (membuf_is_bounded_queue (fun _ => 0) (by decide) (by decide) _).2.2.mpr
    ⟨trivial,trivial,trivial,trivial,⟨1,by decide⟩,trivial,trivial⟩

/-- A buffer of one byte that is asked for 2^30 + 1 more: the doubling wraps to
    a negative size and then to 0 before it is large enough. -/
theorem membuf_extend_by_overflows :
    ¬ Along next Refines (membuf_init (fun _ => 0) 1) [.extend_by (2^30+1) (-1) (some (fun _ => 0))] := by
  rintro ⟨⟨out,after,runs,_⟩,_⟩
  have overflow : (step (membuf_init (fun _ => 0) 1) (.extend_by (2^30+1) (-1) (some (fun _ => 0)))).isNone := by
    decide +kernel
  rw [runs] at overflow
  contradiction

end UBoot.Membuf
