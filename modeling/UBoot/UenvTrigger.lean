import UBoot.RecoveryFlash
import UBoot.Buffers

/-!
The one-shot flag in the environment partition that asks for the recovery loop,
`xg2010g_uenv_consume_recovery_trigger` of `board/airoha/an7581/an7581_rfb.c`.
The flag is taken out of the list in the buffer that holds the whole eraseblock,
by moving the entries behind it forward, and the buffer is written back. The
partition is a device as in the recovery loop; what it reports as written it
holds.
-/
namespace UBoot.Uenv
open UBoot.Memory UBoot.Buffers UBoot.Recovery List

def EBADMSG : Int := 74
def XG2010G_UENV_SIZE : Nat := 0x4000
def XG2010G_UENV_ERASE_SIZE : Nat := 0x40000
def XG2010G_UENV_DATA_SIZE : Nat := XG2010G_UENV_SIZE-4

def trigger_name : List UInt8 :=
  [0x72,0x65,0x63,0x6f,0x76,0x65,0x72,0x79,0x5f,0x74,0x72,0x69,0x67,0x67,0x65,0x72,0x3d]

def trigger : List UInt8 := trigger_name ++ [0x31]

section
variable {World : Type}

structure UenvPart (World : Type) where
  mtd : Mtd World
  writesize : Nat
  stores : Stores mtd

/-- `strnlen` on memory: the bytes before the first zero, at most `maxlen`. -/
def strnlen (m : Nat → UInt8) : Nat → Nat → Nat
  | _, 0 => 0
  | a, maxlen+1 => if m a = 0 then 0 else strnlen m (a+1) maxlen+1

def xg2010g_uenv_is_recovery_trigger (m : Nat → UInt8) (entry len : Nat) : Bool :=
  len = trigger_name.length+1 && load m entry trigger_name.length = trigger_name && m (entry+trigger_name.length) = 0x31

/-- The loop over the entries, up to `stop`: the buffer, where its list ends and
    whether the flag was seen, or nothing when the last entry does not end. Each
    round passes an entry, so that it comes to an end before its fuel does. -/
def consume_loop (stop : Nat) : Nat → (Nat → UInt8) → Nat → Nat → Bool → Option ((Nat → UInt8) × Nat × Bool)
  | 0, _, _, _, _ => none
  | fuel+1, m, src, dst, triggered =>
    if src < stop ∧ m src ≠ 0 then
      let len := strnlen m src (stop-src)
      if src+len = stop then none
      else if xg2010g_uenv_is_recovery_trigger m src len then consume_loop stop fuel m (src+len+1) dst true
      else consume_loop stop fuel (memmove m dst src (len+1)) (src+len+1) (dst+len+1) triggered
    else some (m,dst,triggered)

def write_pages (u : UenvPart World) (buf : List UInt8) : Nat → Nat → Session World → Int × Session World
  | 0, _, s => (0,s)
  | fuel+1, offset, s =>
    if offset < XG2010G_UENV_ERASE_SIZE then
      let len := min u.writesize (XG2010G_UENV_ERASE_SIZE-offset)
      let (ret,retlen,s) := mtd_write u.mtd offset ((buf.drop offset).take len) s
      if ret ≠ 0 then (ret,s)
      else if retlen ≠ len then (- Recovery.EIO,s)
      else write_pages u buf fuel (offset+len) s
    else (0,s)

def xg2010g_uenv_write_block (u : UenvPart World) (buf : List UInt8) (s : Session World) : Int × Session World :=
  let (ret,s) := mtd_erase u.mtd 0 XG2010G_UENV_ERASE_SIZE s
  if ret ≠ 0 then (ret,s) else write_pages u buf (XG2010G_UENV_ERASE_SIZE+1) 0 s

/-- The buffer with the list ended at `dst` and the checksum of the result. -/
def sealed (crc32 : List UInt8 → UInt32) (m : Nat → UInt8) (dst : Nat) : Nat → UInt8 :=
  let m := store m dst (List.replicate (XG2010G_UENV_SIZE-dst) 0)
  store m 0 (little 4 (crc32 (load m 4 XG2010G_UENV_DATA_SIZE)).toNat)

def write_back (u : UenvPart World) (m : Nat → UInt8) (s : Session World) : Int × Bool × Session World :=
  let (ret,s) := xg2010g_uenv_write_block u (load m 0 XG2010G_UENV_ERASE_SIZE) s
  if ret ≠ 0 then (ret,false,s)
  else
    let (ret,retlen,verify,s) := mtd_read u.mtd 0 XG2010G_UENV_SIZE s
    if (ret ≠ 0 ∧ ret ≠ -EUCLEAN) ∨ retlen ≠ XG2010G_UENV_SIZE then (if ret = 0 then - Recovery.EIO else ret,false,s)
    else if verify ≠ load m 0 XG2010G_UENV_SIZE then (- Recovery.EIO,false,s)
    else (0,true,s)

/-- The part behind the read, on the buffer with the eraseblock. -/
def consume_block (crc32 : List UInt8 → UInt32) (u : UenvPart World) (m : Nat → UInt8) (s : Session World) :
    Int × Bool × Session World :=
  if number (load m 0 4) ≠ (crc32 (load m 4 XG2010G_UENV_DATA_SIZE)).toNat then (-EBADMSG,false,s)
  else
    match consume_loop XG2010G_UENV_SIZE XG2010G_UENV_SIZE m 4 4 false with
    | none => (-EINVAL,false,s)
    | some (m,dst,triggered) => if triggered then write_back u (sealed crc32 m dst) s else (0,false,s)

/-- The return code, `*triggered`, and what was done with the device. `found` is
    what looking up the partition gives, `memory` whether both buffers could be
    had. -/
def xg2010g_uenv_consume_recovery_trigger (crc32 : List UInt8 → UInt32) (found : Except Errno (UenvPart World))
    (memory : Bool) (s : Session World) : Int × Bool × Session World :=
  match found with
  | .error err => (err.val,false,s)
  | .ok u =>
    if u.mtd.size < XG2010G_UENV_ERASE_SIZE ∨ u.writesize = 0 ∨ XG2010G_UENV_ERASE_SIZE%u.writesize ≠ 0 then
      (-EINVAL,false,s)
    else if memory = false then (-ENOMEM,false,s)
    else
      let (ret,retlen,block,s) := mtd_read u.mtd 0 XG2010G_UENV_ERASE_SIZE s
      if (ret ≠ 0 ∧ ret ≠ -EUCLEAN) ∨ retlen ≠ XG2010G_UENV_ERASE_SIZE then (if ret = 0 then - Recovery.EIO else ret,false,s)
      else consume_block crc32 u (fun i => block.getD i 0) s

end

def list_text (entries : List (List UInt8)) : List UInt8 := entries.flatMap fun entry => entry ++ [0]

@[simp] theorem list_text_nil : list_text [] = [] := rfl

theorem list_text_cons (entry : List UInt8) (entries : List (List UInt8)) :
    list_text (entry :: entries) = entry ++ 0 :: list_text entries := by
  simp [list_text]

def Entry (entry : List UInt8) : Prop := entry ≠ [] ∧ 0 ∉ entry

theorem strnlen_entry {m : Nat → UInt8} (entry : List UInt8) (plain : 0 ∉ entry) :
    ∀ (a n : Nat) (tail : List UInt8), load m a n = entry ++ 0 :: tail → strnlen m a n = entry.length := by
  induction entry with
  | nil =>
    intro a n tail text
    cases n with
    | zero => cases text
    | succ n =>
      rw [load_succ,nil_append] at text
      rw [strnlen,if_pos (List.cons.inj text).1]
      rfl
  | cons b entry ih =>
    intro a n tail text
    cases n with
    | zero => cases text
    | succ n =>
      rw [load_succ,cons_append] at text
      obtain ⟨first,rest⟩ := List.cons.inj text
      have other : m a ≠ 0 := by
        rw [first]
        intro zero
        exact plain (by simp [zero])
      rw [strnlen,if_neg other,ih (fun member => plain (by simp [member])) (a+1) n tail rest,length_cons]

variable {block : UenvBlock} {entry : List UInt8} (entries : List (List UInt8))

theorem is_trigger_iff {m : Nat → UInt8} {src len : Nat} (text : load m src len = entry) :
    xg2010g_uenv_is_recovery_trigger m src len = true ↔ entry = trigger := by
  have size : trigger.length = trigger_name.length+1 := by decide
  simp only [xg2010g_uenv_is_recovery_trigger,Bool.and_eq_true,decide_eq_true_eq]
  constructor
  · rintro ⟨⟨length,name⟩,one⟩
    rw [← text,length,load_append,name,trigger]
    simp [load,one]
  · intro same
    have length : len = trigger_name.length+1 := by
      have sizes := congrArg List.length text
      rw [load_length,same,size] at sizes
      exact sizes
    rw [length,load_append,same,trigger] at text
    obtain ⟨name,one⟩ := append_inj text (by simp)
    refine ⟨⟨length,name⟩,?_⟩
    simpa [load] using one

theorem memmove_load {m : Nat → UInt8} (dst src len : Nat) : load (memmove m dst src len) dst len = load m src len := by
  apply load_congr
  intro i inside
  rw [memmove,if_pos ⟨by omega,by omega⟩]
  congr 1
  omega

theorem memmove_apart {m : Nat → UInt8} {dst src len i : Nat} (apart : i < dst ∨ dst+len ≤ i) :
    memmove m dst src len i = m i := by
  rw [memmove,if_neg (by omega)]

def kept (entries : List (List UInt8)) : List (List UInt8) := entries.filter (· ≠ trigger)

theorem kept_dropped (flag : entry = trigger) :
    kept (entry :: entries) = kept entries := by
  simp [kept,flag]

theorem kept_stays (other : entry ≠ trigger) :
    kept (entry :: entries) = entry :: kept entries := by
  simp [kept,other]

theorem list_text_cons_length (entry : List UInt8) (entries : List (List UInt8)) :
    (list_text (entry :: entries)).length = (entry.length+1)+(list_text entries).length := by
  rw [list_text_cons,length_append,length_cons]
  omega

theorem kept_length : (list_text (kept entries)).length ≤ (list_text entries).length := by
  induction entries with
  | nil => exact le_rfl
  | cons entry entries ih =>
    by_cases flag : entry = trigger
    · rw [kept_dropped entries flag,list_text_cons_length]
      omega
    · rw [kept_stays entries flag,list_text_cons_length,list_text_cons_length]
      omega

/-- The loop passes a list of entries and goes on with what follows. The
    induction is on the entries; what is moved forward lands on bytes that the
    scan has passed. -/
theorem consume_loop_entries {stop : Nat} (plain : ∀ entry ∈ entries, Entry entry)
    {rest : List UInt8} :
    ∀ (fuel : Nat) (m : Nat → UInt8) (src dst : Nat) (triggered : Bool), dst ≤ src → src ≤ stop → stop < fuel+src →
      load m src (stop-src) = list_text entries ++ rest →
      ∃ (m' : Nat → UInt8) (fuel' : Nat), consume_loop stop fuel m src dst triggered =
          consume_loop stop fuel' m' (src+(list_text entries).length) (dst+(list_text (kept entries)).length)
            (triggered || decide (trigger ∈ entries)) ∧
        stop < fuel'+(src+(list_text entries).length) ∧
        load m' (src+(list_text entries).length) rest.length = rest ∧
        (∀ i, i < dst → m' i = m i) ∧ (∀ i, stop ≤ i → m' i = m i) ∧
        load m' dst (list_text (kept entries)).length = list_text (kept entries) := by
  induction entries with
  | nil =>
    intro fuel m src dst triggered before inside enough text
    have size := congrArg List.length text
    rw [load_length,list_text_nil,nil_append] at size
    rw [list_text_nil,nil_append,size] at text
    refine ⟨m,fuel,?_,?_,text,fun _ _ => rfl,fun _ _ => rfl,rfl⟩
    · simp [kept]
    · simpa using enough
  | cons entry entries ih =>
    intro fuel m src dst triggered before inside enough text
    obtain ⟨some_,no_zero⟩ := plain entry (by simp)
    have later := ih (fun other member => plain other (by simp [member]))
    have pos : 0 < entry.length := length_pos_iff.mpr some_
    rw [list_text_cons,append_assoc,cons_append] at text
    have size := congrArg List.length text
    rw [load_length,length_append,length_cons] at size
    have room : stop-src = entry.length+(1+(stop-(src+entry.length+1))) := by omega
    have len : strnlen m src (stop-src) = entry.length := strnlen_entry entry no_zero src (stop-src) _ text
    rw [room,load_append] at text
    obtain ⟨here,behind⟩ := append_inj text (by simp)
    rw [add_comm 1,load_succ] at behind
    obtain ⟨zero,rest_text⟩ := List.cons.inj behind
    have start : m src ≠ 0 := by
      obtain ⟨first,tail,rfl⟩ := exists_cons_of_ne_nil some_
      rw [length_cons,load_succ] at here
      rw [(List.cons.inj here).1]
      intro none_
      exact no_zero (by simp [none_])
    have length := list_text_cons_length entry entries
    have after : src+(list_text (entry :: entries)).length = src+entry.length+1+(list_text entries).length := by omega
    cases fuel with
    | zero => omega
    | succ fuel =>
      rw [consume_loop,if_pos ⟨by omega,start⟩]
      dsimp only
      rw [len,if_neg (by omega),after]
      by_cases flag : entry = trigger
      · rw [if_pos ((is_trigger_iff here).mpr flag)]
        obtain ⟨m',fuel',run,more,ahead,low,high,moved⟩ := later fuel m (src+entry.length+1) dst true (by omega)
          (by omega) (by omega) rest_text
        have member : trigger ∈ entry :: entries := by simp [flag]
        rw [kept_dropped entries flag]
        refine ⟨m',fuel',?_,more,ahead,low,high,moved⟩
        rw [run,decide_eq_true member,Bool.true_or,Bool.or_true]
      have other : ¬ xg2010g_uenv_is_recovery_trigger m src entry.length = true := by
        rw [is_trigger_iff here]
        exact flag
      rw [if_neg other]
      have same_rest : load (memmove m dst src (entry.length+1)) (src+entry.length+1) (stop-(src+entry.length+1)) =
          list_text entries ++ rest := by
        rw [← rest_text]
        apply load_congr
        intro i _
        exact memmove_apart (.inr (by omega))
      obtain ⟨m',fuel',run,more,ahead,low,high,moved⟩ := later fuel (memmove m dst src (entry.length+1))
        (src+entry.length+1) (dst+entry.length+1) triggered (by omega) (by omega) (by omega) same_rest
      have placed : load m' dst (entry.length+1) = entry ++ [0] := by
        have source : load m src (entry.length+1) = entry ++ [0] := by
          rw [load_append,here,load_succ,zero]
          rfl
        rw [← source,← memmove_load dst src (entry.length+1)]
        apply load_congr
        intro i small
        exact low _ (by omega)
      have member : decide (trigger ∈ entry :: entries) = decide (trigger ∈ entries) := by
        rw [decide_eq_decide,mem_cons,or_iff_right (fun same => flag same.symm)]
      rw [kept_stays entries flag,list_text_cons_length]
      refine ⟨m',fuel',?_,more,ahead,?_,?_,?_⟩
      · rw [run,member]
        simp only [add_assoc]
      · intro i below
        rw [low i (by omega),memmove_apart (.inl below)]
      · intro i above
        rw [high i above,memmove_apart (.inr (by omega))]
      · rw [load_append,placed,← add_assoc,moved,list_text_cons,append_assoc,singleton_append]

/-- What may follow the entries of a list: nothing, or a zero first. -/
def Ended (rest : List UInt8) : Prop := rest = [] ∨ rest.head? = some 0

theorem consume_loop_ended {stop fuel src dst : Nat} {m : Nat → UInt8} {triggered : Bool} {rest : List UInt8}
    (ended : Ended rest) (text : load m src rest.length = rest) (inside : src+rest.length = stop)
    (enough : stop < fuel+src) : consume_loop stop fuel m src dst triggered = some (m,dst,triggered) := by
  cases fuel with
  | zero => omega
  | succ fuel =>
    have past : ¬ (src < stop ∧ m src ≠ 0) := by
      rintro ⟨more,other⟩
      rcases ended with none_ | zero
      · rw [none_,length_nil] at inside
        omega
      · obtain ⟨tail,rfl⟩ := head?_eq_some_iff.mp zero
        rw [length_cons,load_succ] at text
        exact other (List.cons.inj text).1
    rw [consume_loop,if_neg past]

theorem strnlen_open {m : Nat → UInt8} (tail : List UInt8) (no_zero : 0 ∉ tail) :
    ∀ a, load m a tail.length = tail → strnlen m a tail.length = tail.length := by
  induction tail with
  | nil =>
    intro a _
    rfl
  | cons b tail ih =>
    intro a text
    rw [length_cons,load_succ] at text
    obtain ⟨first,rest⟩ := List.cons.inj text
    have other : m a ≠ 0 := by
      rw [first]
      intro zero
      exact no_zero (by simp [zero])
    rw [length_cons,strnlen,if_neg other,ih (fun member => no_zero (by simp [member])) (a+1) rest]

theorem consume_loop_open {stop fuel src dst : Nat} {m : Nat → UInt8} {triggered : Bool} {tail : List UInt8}
    (some_ : tail ≠ []) (no_zero : 0 ∉ tail) (text : load m src tail.length = tail) (inside : src+tail.length = stop) :
    consume_loop stop fuel m src dst triggered = none := by
  cases fuel with
  | zero => rfl
  | succ fuel =>
    have pos : 0 < tail.length := length_pos_iff.mpr some_
    have start : m src ≠ 0 := by
      obtain ⟨first,rest,rfl⟩ := exists_cons_of_ne_nil some_
      rw [length_cons,load_succ] at text
      rw [(List.cons.inj text).1]
      intro zero
      exact no_zero (by simp [zero])
    have size : stop-src = tail.length := by omega
    rw [consume_loop,if_pos ⟨by omega,start⟩]
    dsimp only
    rw [size,strnlen_open tail no_zero src text,if_pos inside]

theorem list_text_cases (n : Nat) : ∀ data : List UInt8, data.length ≤ n → ∃ (entries : List (List UInt8)) (rest : List UInt8),
    (∀ entry ∈ entries, Entry entry) ∧ data = list_text entries ++ rest ∧ (Ended rest ∨ (rest ≠ [] ∧ 0 ∉ rest)) := by
  induction n with
  | zero =>
    intro data small
    obtain rfl := length_eq_zero_iff.mp (Nat.le_zero.mp small)
    exact ⟨[],[],by simp,rfl,.inl (.inl rfl)⟩
  | succ n ih =>
    intro data small
    by_cases whole : 0 ∈ data
    · obtain ⟨entry,tail,rfl,no_zero⟩ := eq_append_cons_of_mem whole
      by_cases none_ : entry = []
      · refine ⟨[],0 :: tail,by simp,?_,.inl (.inr rfl)⟩
        rw [none_]
        rfl
      rw [length_append,length_cons] at small
      obtain ⟨entries,rest,plain,text,kind⟩ := ih tail (by omega)
      refine ⟨entry :: entries,rest,?_,?_,kind⟩
      · intro other member
        rcases mem_cons.mp member with rfl | later
        · exact ⟨none_,no_zero⟩
        · exact plain other later
      · rw [list_text_cons,text,append_assoc,cons_append]
    · by_cases none_ : data = []
      · exact ⟨[],data,by simp,rfl,.inl (.inl none_)⟩
      · exact ⟨[],data,by simp,rfl,.inr ⟨none_,whole⟩⟩

/-- An eraseblock with an environment: its entries, what follows them in the
    environment, and what is stored behind it. -/
structure UenvBlock where
  entries : List (List UInt8)
  rest : List UInt8
  beyond : List UInt8
  plain : ∀ entry ∈ entries, Entry entry
  ended : Ended rest
  data_size : (list_text entries ++ rest).length = XG2010G_UENV_DATA_SIZE
  beyond_size : beyond.length = XG2010G_UENV_ERASE_SIZE-XG2010G_UENV_SIZE

theorem kept_plain {entries : List (List UInt8)} (plain : ∀ entry ∈ entries, Entry entry) :
    ∀ entry ∈ kept entries, Entry entry := fun entry member => plain entry (mem_filter.mp member).1

theorem trigger_kept : trigger ∉ kept entries := by simp [kept]

def UenvBlock.data (block : UenvBlock) : List UInt8 := list_text block.entries ++ block.rest

def UenvBlock.bytes (crc32 : List UInt8 → UInt32) (block : UenvBlock) : List UInt8 :=
  little 4 (crc32 block.data).toNat ++ (block.data ++ block.beyond)

/-- The same without the flag: zeros follow the entries that are left. -/
def UenvBlock.consumed (block : UenvBlock) : UenvBlock where
  entries := kept block.entries
  rest := List.replicate (XG2010G_UENV_DATA_SIZE-(list_text (kept block.entries)).length) 0
  beyond := block.beyond
  plain := kept_plain block.plain
  ended := by
    by_cases full : XG2010G_UENV_DATA_SIZE-(list_text (kept block.entries)).length = 0
    · rw [full]
      exact .inl rfl
    · obtain ⟨n,more⟩ := Nat.exists_eq_succ_of_ne_zero full
      rw [more]
      exact .inr rfl
  data_size := by
    have small := kept_length block.entries
    have size := block.data_size
    rw [List.length_append] at size ⊢
    rw [List.length_replicate]
    omega
  beyond_size := block.beyond_size

section
variable {crc32 : List UInt8 → UInt32} {m : Nat → UInt8}

theorem holds_block (text : load m 0 XG2010G_UENV_ERASE_SIZE = block.bytes crc32) :
    load m 0 4 = little 4 (crc32 block.data).toNat ∧ load m 4 XG2010G_UENV_DATA_SIZE = block.data ∧
      load m XG2010G_UENV_SIZE (XG2010G_UENV_ERASE_SIZE-XG2010G_UENV_SIZE) = block.beyond := by
  have parts : XG2010G_UENV_ERASE_SIZE = 4+(XG2010G_UENV_DATA_SIZE+(XG2010G_UENV_ERASE_SIZE-XG2010G_UENV_SIZE)) := rfl
  have size : block.data.length = XG2010G_UENV_DATA_SIZE := block.data_size
  rw [parts,load_append,load_append,UenvBlock.bytes] at text
  obtain ⟨crc,more⟩ := append_inj text (by simp)
  obtain ⟨data,beyond⟩ := append_inj more (by rw [load_length,size])
  exact ⟨crc,data,beyond⟩

theorem block_holds (crc : load m 0 4 = little 4 (crc32 block.data).toNat)
    (data : load m 4 XG2010G_UENV_DATA_SIZE = block.data)
    (beyond : load m XG2010G_UENV_SIZE (XG2010G_UENV_ERASE_SIZE-XG2010G_UENV_SIZE) = block.beyond) :
    load m 0 XG2010G_UENV_ERASE_SIZE = block.bytes crc32 := by
  have parts : XG2010G_UENV_ERASE_SIZE = 4+(XG2010G_UENV_DATA_SIZE+(XG2010G_UENV_ERASE_SIZE-XG2010G_UENV_SIZE)) := rfl
  rw [parts,load_append,load_append,crc,data]
  exact congrArg _ (congrArg _ beyond)

theorem sealed_block (text : load m 0 XG2010G_UENV_ERASE_SIZE = block.bytes crc32) :
    ∃ m' dst, consume_loop XG2010G_UENV_SIZE XG2010G_UENV_SIZE m 4 4 false =
        some (m',dst,decide (trigger ∈ block.entries)) ∧
      load (sealed crc32 m' dst) 0 XG2010G_UENV_ERASE_SIZE = block.consumed.bytes crc32 := by
  obtain ⟨-,data,beyond⟩ := holds_block text
  obtain ⟨m',fuel',run,more,ahead,low,high,moved⟩ := consume_loop_entries block.entries block.plain
    XG2010G_UENV_SIZE m 4 4 false (le_refl 4) (by decide) (by decide) data
  have fits := kept_length block.entries
  have size := block.data_size
  rw [length_append,XG2010G_UENV_DATA_SIZE] at size
  have whole : (4 : Nat) ≤ XG2010G_UENV_SIZE := by decide
  rw [consume_loop_ended block.ended ahead (by omega) more] at run
  refine ⟨m',_,by rw [run,Bool.false_or],?_⟩
  obtain ⟨dst,dstIs⟩ : ∃ dst, dst = 4+(list_text (kept block.entries)).length := ⟨_,rfl⟩
  rw [← dstIs]
  generalize zeros : replicate (XG2010G_UENV_SIZE-dst) (0 : UInt8) = fill
  have fill_size : fill.length = XG2010G_UENV_SIZE-dst := by
    rw [← zeros,length_replicate]
  have data' : load (store m' dst fill) 4 XG2010G_UENV_DATA_SIZE =
      block.consumed.data := by
    have room : XG2010G_UENV_DATA_SIZE = (list_text (kept block.entries)).length+fill.length := by
      rw [XG2010G_UENV_DATA_SIZE]
      omega
    have rest_size : XG2010G_UENV_DATA_SIZE-(list_text (kept block.entries)).length = fill.length := by
      rw [XG2010G_UENV_DATA_SIZE]
      omega
    have rest : block.consumed.rest = fill := by
      rw [← zeros,← fill_size,← rest_size]
      rfl
    rw [room,load_append,← dstIs,load_store,load_store_apart m' (.inl dstIs.ge),moved,UenvBlock.data,rest]
    rfl
  have behind : dst+fill.length ≤ XG2010G_UENV_SIZE := by omega
  have beyond' : load (store m' dst fill) XG2010G_UENV_SIZE
      (XG2010G_UENV_ERASE_SIZE-XG2010G_UENV_SIZE) = block.beyond := by
    rw [load_store_apart m' (.inr behind),← beyond]
    apply load_congr
    intro i _
    exact high _ (Nat.le_add_right _ _)
  rw [sealed,zeros,data']
  apply block_holds
  · have stored := load_store (store m' dst fill) 0
      (little 4 (crc32 block.consumed.data).toNat)
    rwa [little_length] at stored
  · rw [load_store_apart _ (.inr (by rw [little_length])),data']
  · rw [load_store_apart _ (.inr (by rw [little_length]; decide)),beyond']
    rfl

end

section
variable {World : Type} {u : UenvPart World}

theorem write_pages_stored (buf : List UInt8) (size : buf.length = XG2010G_UENV_ERASE_SIZE) (page : 0 < u.writesize) (fuel : Nat) :
    ∀ (offset : Nat) (s s' : Session World), XG2010G_UENV_ERASE_SIZE < fuel+offset → offset ≤ XG2010G_UENV_ERASE_SIZE →
      load (u.mtd.content s.world) 0 offset = buf.take offset → write_pages u buf fuel offset s = (0,s') →
      load (u.mtd.content s'.world) 0 XG2010G_UENV_ERASE_SIZE = buf := by
  induction fuel with
  | zero =>
    intro offset s s' enough inside
    omega
  | succ fuel ih =>
    intro offset s s' enough inside held ends
    rw [write_pages] at ends
    by_cases more : offset < XG2010G_UENV_ERASE_SIZE
    · rw [if_pos more] at ends
      dsimp only at ends
      generalize len : min u.writesize (XG2010G_UENV_ERASE_SIZE-offset) = n at ends
      have length : ((buf.drop offset).take n).length = n := by
        rw [length_take,length_drop,size]
        omega
      generalize wrote : mtd_write u.mtd offset ((buf.drop offset).take n) s = result at ends
      obtain ⟨ret,retlen,s2⟩ := result
      dsimp only at ends
      by_cases failed : ret ≠ 0
      · rw [if_pos failed] at ends
        exact absurd (Prod.mk.inj ends).1 failed
      rw [if_neg failed] at ends
      by_cases short : retlen ≠ n
      · rw [if_pos short] at ends
        exact absurd (Prod.mk.inj ends).1 (by decide)
      rw [if_neg short] at ends
      have zero := not_not.mp failed
      rw [zero] at wrote
      refine ih (offset+n) s2 s' (by omega) (by omega) ?_ ends
      have at_ : mtd_write u.mtd (0+offset) ((buf.drop offset).take n) s = (0,retlen,s2) := by
        rw [zero_add,wrote]
      have before := write_keeps at_
      have stored := (@stored_spec World u.mtd false (.inr u.stores) offset retlen _ s s2 s2 wrote
        ((not_not.mp short).trans length.symm) (if_neg Bool.false_ne_true)).2
      rw [length] at stored
      rw [load_append,before,held,zero_add,stored,take_add]
    · rw [if_neg more] at ends
      obtain ⟨-,rfl⟩ := Prod.mk.inj ends
      have all : offset = buf.length := by omega
      rw [all,take_length,size] at held
      exact held

theorem write_block_stored {buf : List UInt8} {s s' : Session World} (size : buf.length = XG2010G_UENV_ERASE_SIZE)
    (page : 0 < u.writesize) (done : xg2010g_uenv_write_block u buf s = (0,s')) :
    load (u.mtd.content s'.world) 0 XG2010G_UENV_ERASE_SIZE = buf := by
  rw [xg2010g_uenv_write_block] at done
  dsimp only at done
  by_cases failed : (mtd_erase u.mtd 0 XG2010G_UENV_ERASE_SIZE s).1 ≠ 0
  · rw [if_pos failed] at done
    exact absurd (Prod.mk.inj done).1 failed
  · rw [if_neg failed] at done
    exact write_pages_stored buf size page _ 0 _ s' (by omega) (Nat.zero_le _) rfl done

theorem write_back_stored {m : Nat → UInt8} {s : Session World} (page : 0 < u.writesize)
    (success : (write_back u m s).1 = 0) : (write_back u m s).2.1 = true ∧
      load (u.mtd.content (write_back u m s).2.2.world) 0 XG2010G_UENV_ERASE_SIZE = load m 0 XG2010G_UENV_ERASE_SIZE := by
  have failed : - Recovery.EIO ≠ 0 := by decide
  generalize ends : write_back u m s = r at success ⊢
  rw [write_back] at ends
  dsimp only at ends
  generalize wrote : xg2010g_uenv_write_block u (load m 0 XG2010G_UENV_ERASE_SIZE) s = result at ends
  obtain ⟨ret,s2⟩ := result
  dsimp only at ends
  by_cases bad : ret ≠ 0
  · rw [if_pos bad] at ends
    rw [← ends] at success
    exact absurd success bad
  rw [if_neg bad] at ends
  rw [not_not.mp bad] at wrote
  have stored := write_block_stored (load_length _ _ _) page wrote
  by_cases unread : ((mtd_read u.mtd 0 XG2010G_UENV_SIZE s2).1 ≠ 0 ∧
      (mtd_read u.mtd 0 XG2010G_UENV_SIZE s2).1 ≠ -EUCLEAN) ∨ (mtd_read u.mtd 0 XG2010G_UENV_SIZE s2).2.1 ≠ XG2010G_UENV_SIZE
  · rw [if_pos unread] at ends
    rw [← ends] at success
    dsimp only at success
    by_cases zero : (mtd_read u.mtd 0 XG2010G_UENV_SIZE s2).1 = 0
    · rw [if_pos zero] at success
      exact absurd success failed
    · rw [if_neg zero] at success
      exact absurd success zero
  · rw [if_neg unread] at ends
    by_cases differs : (mtd_read u.mtd 0 XG2010G_UENV_SIZE s2).2.2.1 ≠ load m 0 XG2010G_UENV_SIZE
    · rw [if_pos differs] at ends
      rw [← ends] at success
      exact absurd success failed
    · rw [if_neg differs] at ends
      rw [← ends]
      refine ⟨rfl,?_⟩
      have same : u.mtd.content (mtd_read u.mtd 0 XG2010G_UENV_SIZE s2).2.2.2.world = u.mtd.content s2.world :=
        u.mtd.read_keeps _ _ _
      rw [same,stored]

/-- The device holds what it held, and was not asked to change. -/
structure Untouched (u : UenvPart World) (s s' : Session World) : Prop where
  content : u.mtd.content s'.world = u.mtd.content s.world
  log : ∃ ops, s'.log = s.log ++ ops ∧ ∀ op ∈ ops, op.alters = false

structure Reads (u : UenvPart World) (memory : Bool) (s : Session World) : Prop where
  size : XG2010G_UENV_ERASE_SIZE ≤ u.mtd.size
  page : 0 < u.writesize
  pages : XG2010G_UENV_ERASE_SIZE%u.writesize = 0
  memory : memory = true
  ret : (u.mtd.read s.world 0 XG2010G_UENV_ERASE_SIZE).1 = 0 ∨ (u.mtd.read s.world 0 XG2010G_UENV_ERASE_SIZE).1 = -EUCLEAN
  whole : (u.mtd.read s.world 0 XG2010G_UENV_ERASE_SIZE).2.1 = XG2010G_UENV_ERASE_SIZE

variable (crc32 : List UInt8 → UInt32) (memory : Bool) (s : Session World)

theorem read_untouched (addr len : Nat) : Untouched u s (mtd_read u.mtd addr len s).2.2.2 :=
  ⟨u.mtd.read_keeps s.world addr len,[.read addr len],rfl,by simp [Op.alters]⟩

theorem consume_unread (unread : ¬ Reads u memory s) :
    (xg2010g_uenv_consume_recovery_trigger crc32 (.ok u) memory s).1 ≠ 0 ∧
      (xg2010g_uenv_consume_recovery_trigger crc32 (.ok u) memory s).2.1 = false ∧
      Untouched u s (xg2010g_uenv_consume_recovery_trigger crc32 (.ok u) memory s).2.2 := by
  have same : Untouched u s s := ⟨rfl,[],by simp,by simp⟩
  unfold xg2010g_uenv_consume_recovery_trigger
  dsimp only
  by_cases geometry : u.mtd.size < XG2010G_UENV_ERASE_SIZE ∨ u.writesize = 0 ∨ XG2010G_UENV_ERASE_SIZE%u.writesize ≠ 0
  · rw [if_pos geometry]
    exact ⟨(show -EINVAL ≠ 0 by decide),rfl,same⟩
  rw [if_neg geometry]
  by_cases none_ : memory = false
  · rw [if_pos none_]
    exact ⟨(show -ENOMEM ≠ 0 by decide),rfl,same⟩
  rw [if_neg none_]
  have asked := read_untouched (u := u) s 0 XG2010G_UENV_ERASE_SIZE
  obtain ⟨got,gotIs⟩ : ∃ got, got = mtd_read u.mtd 0 XG2010G_UENV_ERASE_SIZE s := ⟨_,rfl⟩
  rw [← gotIs] at asked ⊢
  by_cases failed : (got.1 ≠ 0 ∧ got.1 ≠ -EUCLEAN) ∨ got.2.1 ≠ XG2010G_UENV_ERASE_SIZE
  · rw [if_pos failed]
    refine ⟨?_,rfl,asked⟩
    dsimp only
    by_cases zero : got.1 = 0
    · rw [if_pos zero]
      exact (show - Recovery.EIO ≠ 0 by decide)
    · rw [if_neg zero]
      exact zero
  · subst gotIs
    refine absurd ⟨by omega,by omega,by omega,by simpa using none_,?_,?_⟩ unread
    · exact Decidable.or_iff_not_not_and_not.mpr (fun bad => failed (.inl bad))
    · exact not_not.mp (fun bad => failed (.inr bad))

theorem consume_reads (reads : Reads u memory s) :
    ∃ m, load m 0 XG2010G_UENV_ERASE_SIZE = load (u.mtd.content s.world) 0 XG2010G_UENV_ERASE_SIZE ∧
      xg2010g_uenv_consume_recovery_trigger crc32 (.ok u) memory s =
        consume_block crc32 u m (mtd_read u.mtd 0 XG2010G_UENV_ERASE_SIZE s).2.2.2 := by
  refine ⟨fun i => (mtd_read u.mtd 0 XG2010G_UENV_ERASE_SIZE s).2.2.1.getD i 0,?_,?_⟩
  · have stored : (mtd_read u.mtd 0 XG2010G_UENV_ERASE_SIZE s).2.2.1 =
        load (u.mtd.content s.world) 0 XG2010G_UENV_ERASE_SIZE :=
      u.mtd.read_stored s.world 0 XG2010G_UENV_ERASE_SIZE reads.ret reads.whole
    rw [stored]
    apply load_congr
    intro i inside
    rw [zero_add,getD_eq_getElem?_getD,load,getElem?_map,getElem?_range inside]
    simp
  · have size := reads.size
    have page := reads.page
    have pages := reads.pages
    have geometry : ¬ (u.mtd.size < XG2010G_UENV_ERASE_SIZE ∨ u.writesize = 0 ∨
      XG2010G_UENV_ERASE_SIZE%u.writesize ≠ 0) := by omega
    have had : ¬ memory = false := by simp [reads.memory]
    unfold xg2010g_uenv_consume_recovery_trigger
    dsimp only
    rw [if_neg geometry,if_neg had,if_neg]
    rintro (⟨other,no_correction⟩ | short)
    · rcases reads.ret with zero | corrected
      · exact other zero
      · exact no_correction corrected
    · exact short reads.whole

end

section
variable {World : Type} {u : UenvPart World} {crc32 : List UInt8 → UInt32} {m : Nat → UInt8}

theorem consume_block_holds (text : load m 0 XG2010G_UENV_ERASE_SIZE = block.bytes crc32)
    (s : Session World) : ∃ m', load m' 0 XG2010G_UENV_ERASE_SIZE = block.consumed.bytes crc32 ∧
      consume_block crc32 u m s = if trigger ∈ block.entries then write_back u m' s else (0,false,s) := by
  obtain ⟨crc,data,-⟩ := holds_block text
  obtain ⟨m',dst,run,result⟩ := sealed_block text
  have low : (crc32 block.data).toNat < 256^4 := (crc32 block.data).toNat_lt
  have same : number (load m 0 4) = (crc32 (load m 4 XG2010G_UENV_DATA_SIZE)).toNat := by
    rw [crc,data,number_little,Nat.mod_eq_of_lt low]
  refine ⟨sealed crc32 m' dst,result,?_⟩
  rw [consume_block,if_neg (not_not.mpr same),run]
  simp

theorem consume_block_other (other : ∀ block : UenvBlock, load m 0 XG2010G_UENV_ERASE_SIZE ≠ block.bytes crc32)
    (s : Session World) : ∃ ret : Int, ret ≠ 0 ∧ consume_block crc32 u m s = (ret,false,s) := by
  rw [consume_block]
  by_cases bad : number (load m 0 4) ≠ (crc32 (load m 4 XG2010G_UENV_DATA_SIZE)).toNat
  · rw [if_pos bad]
    exact ⟨-EBADMSG,by decide,rfl⟩
  rw [if_neg bad]
  obtain ⟨entries,rest,plain,text,ended | ⟨some_,no_zero⟩⟩ :=
    list_text_cases _ (load m 4 XG2010G_UENV_DATA_SIZE) le_rfl
  · have size := congrArg List.length text
    rw [load_length] at size
    have crc := little_number (load m 0 4)
    rw [load_length,not_not.mp bad,text] at crc
    generalize behind : load m XG2010G_UENV_SIZE (XG2010G_UENV_ERASE_SIZE-XG2010G_UENV_SIZE) = beyond
    have room : beyond.length = XG2010G_UENV_ERASE_SIZE-XG2010G_UENV_SIZE := by rw [← behind,load_length]
    obtain ⟨block,data,last⟩ : ∃ block : UenvBlock, block.data = list_text entries ++ rest ∧ block.beyond = beyond :=
      ⟨⟨entries,rest,beyond,plain,ended,size.symm,room⟩,rfl,rfl⟩
    rw [← data] at crc text
    exact absurd (block_holds crc.symm text (behind.trans last.symm)) (other block)
  · have text' : load m 4 (XG2010G_UENV_SIZE-4) = list_text entries ++ rest := text
    obtain ⟨m',fuel',run,more,ahead,-⟩ := consume_loop_entries entries plain
      XG2010G_UENV_SIZE m 4 4 false (le_refl 4) (by decide) (by decide) text'
    have size := congrArg List.length text
    rw [load_length,length_append,XG2010G_UENV_DATA_SIZE] at size
    have whole : (4 : Nat) ≤ XG2010G_UENV_SIZE := by decide
    have inside : 4+(list_text entries).length+rest.length = XG2010G_UENV_SIZE := by omega
    rw [consume_loop_open some_ no_zero ahead inside] at run
    rw [run]
    exact ⟨-EINVAL,by decide,rfl⟩

theorem consume_plain {s : Session World} (memory : Bool)
    (text : load (u.mtd.content s.world) 0 XG2010G_UENV_ERASE_SIZE = block.bytes crc32)
    (plain : trigger ∉ block.entries) :
    (xg2010g_uenv_consume_recovery_trigger crc32 (.ok u) memory s).2.1 = false ∧
      Untouched u s (xg2010g_uenv_consume_recovery_trigger crc32 (.ok u) memory s).2.2 ∧
      ((xg2010g_uenv_consume_recovery_trigger crc32 (.ok u) memory s).1 = 0 ↔ Reads u memory s) := by
  by_cases reads : Reads u memory s
  · obtain ⟨m,buffer,run⟩ := consume_reads crc32 memory s reads
    obtain ⟨m',-,rest⟩ := consume_block_holds (buffer.trans text) (mtd_read u.mtd 0 XG2010G_UENV_ERASE_SIZE s).2.2.2
    rw [run,rest,if_neg plain]
    exact ⟨rfl,read_untouched s _ _,iff_of_true rfl reads⟩
  · obtain ⟨failed,quiet,same⟩ := consume_unread crc32 memory s reads
    exact ⟨quiet,same,iff_of_false failed reads⟩

end

end UBoot.Uenv
