import UBoot.EnvText

/-!
Completion of variable names: `hmatch_r` of `lib/hashtable.c`, which gives the
slot of the next key that begins with a string, and `env_complete` of
`env/common.c`, which calls it until it gives zero. The keys are copied to a
buffer and pointed to from a vector; a store outside either of them gives no
value. The length of a key is one that an `int` holds.
-/
namespace UBoot.EnvComplete
open UBoot.OpenAddressing UBoot.Runs UBoot.Hashtable UBoot.EnvText List Option Function

def DOLLAR : UInt8 := 36
def BRACE : UInt8 := 123
def CLOSING : UInt8 := 125
def DOTS : Str := [46,46,46]

def begins (htab : Htab) (name : Str) (idx : Nat) : Bool := 0 < (htab.at idx).used ∧ name.isPrefixOf (htab.at idx).key

/-- The loop over the indices from `idx` on, for so many rounds. -/
def hmatch_loop (htab : Htab) (name : Str) : Nat → Nat → Result
  | 0, _ => ⟨0,none,some ESRCH,htab⟩
  | rounds+1, idx =>
    if idx < htab.size then
      if begins htab name idx then ⟨idx,some idx,none,htab⟩ else hmatch_loop htab name rounds (idx+1)
    else ⟨0,none,some ESRCH,htab⟩

def hmatch_r (htab : Htab) (name : Str) (last_idx : Nat) : Result := hmatch_loop htab name htab.size (last_idx+1)

/-- What `idx = hmatch_r(name, idx, ..)` gives until it gives zero, if it does in
    so many rounds. -/
def enumerate (htab : Htab) (name : Str) : Nat → Nat → Option (List Nat)
  | 0, _ => none
  | rounds+1, idx =>
    let idx := (hmatch_r htab name idx).ret
    if idx = 0 then some [] else (enumerate htab name rounds idx).map (idx :: ·)

/-- An element of `cmdv`: null, a place in the buffer, or a string of the program. -/
inductive Pointer where
  | null
  | place (off : Nat)
  | literal (text : Str)
  deriving DecidableEq, Repr

/-- So many elements from an offset on are replaced. No value where one of them is
    outside. -/
def store {α : Type} (area : List α) (off : Nat) (elements : List α) : Option (List α) :=
  if off+elements.length ≤ area.length then some (area.take off ++ elements ++ area.drop (off+elements.length)) else none

def strcpy (buf : List UInt8) (off : Nat) (text : Str) : Option (List UInt8) := store buf off (text ++ [NUL])

def Pointer.text (buf : List UInt8) : Pointer → Str
  | .null => []
  | .place off => (buf.drop off).takeWhile (· ≠ NUL)
  | .literal text => text

/-- The locals of `env_complete`, with `off` for how far `buf` has gone. -/
structure Listing where
  found : Nat
  off : Nat
  bufsz : Int
  cmdv : List Pointer
  buf : List UInt8
  deriving DecidableEq, Repr

def complete_key (dollar_comp : Bool) (key : Str) (s : Listing) : Option Listing :=
  let vallen := key.length+1
  (store s.cmdv s.found [.place s.off]).bind fun cmdv =>
  if dollar_comp then
    (strcpy s.buf s.off [DOLLAR,BRACE]).bind fun buf =>
    (strcpy buf (s.off+2) key).bind fun buf =>
    (strcpy buf (s.off+2+vallen-1) [CLOSING]).map fun buf =>
    ⟨s.found+1,s.off+2+vallen+1,s.bufsz-3-vallen,cmdv,buf⟩
  else
    (strcpy s.buf s.off key).map fun buf => ⟨s.found+1,s.off+vallen,s.bufsz-vallen,cmdv,buf⟩

/-- The loop, for so many rounds, with the index at which it ends. -/
def complete_loop (htab : Htab) (name : Str) (maxv : Int) (dollar_comp : Bool) : Nat → Nat → Listing → Option (Nat × Listing)
  | 0, _, _ => none
  | rounds+1, idx, s =>
    let idx := (hmatch_r htab name idx).ret
    if idx = 0 then some (0,s)
    else
      let key := (htab.at idx).key
      let vallen : Int := key.length+1
      if maxv-2 ≤ s.found ∨ s.bufsz < vallen+(if dollar_comp then 3 else 0) then some (idx,s)
      else (complete_key dollar_comp key s).bind (complete_loop htab name maxv dollar_comp rounds idx)

/-- `qsort` of the first pointers with `strcmp_compar`. -/
def qsort (buf : List UInt8) (found : Nat) (cmdv : List Pointer) : List Pointer :=
  (cmdv.take found).mergeSort (fun p1 p2 => strcmp (p1.text buf) (p2.text buf) ≤ 0) ++ cmdv.drop found

def completed_name (dollar_comp : Bool) (var : Str) : Option Str :=
  if dollar_comp then
    if first var ≠ DOLLAR then none
    else if first (var.drop 1) = BRACE then some (var.drop 2)
    else if first (var.drop 1) ≠ NUL then none
    else some (var.drop 1)
  else some var

structure Completed where
  ret : Nat
  cmdv : List Pointer
  buf : List UInt8
  deriving DecidableEq, Repr

def marker (dollar_comp : Bool) : Str := if dollar_comp then DOLLAR :: BRACE :: DOTS ++ [CLOSING] else DOTS

def env_complete (htab : Htab) (var : Str) (cmdv : List Pointer) (buf : List UInt8) (dollar_comp : Bool) : Option Completed :=
  match completed_name dollar_comp var with
  | none => some ⟨0,cmdv,buf⟩
  | some name => do
    let maxv := cmdv.length
    let cmdv ← store cmdv 0 [.null]
    let (idx,s) ← complete_loop htab name maxv dollar_comp (htab.size+1) 0 ⟨0,0,buf.length,cmdv,buf⟩
    let cmdv := qsort s.buf s.found s.cmdv
    let (found,cmdv) ← if idx ≠ 0 then (store cmdv s.found [.literal (marker dollar_comp)]).map fun cmdv => (s.found+1,cmdv)
      else some (s.found,cmdv)
    let cmdv ← store cmdv found [.null]
    some ⟨found,cmdv,s.buf⟩

def Completed.listed (done : Completed) : List Str := (done.cmdv.take done.ret).map (Pointer.text done.buf)

theorem env_complete_refused {htab : Htab} {dollar_comp : Bool} {var : Str} (refused : completed_name dollar_comp var = none)
    (cmdv : List Pointer) (buf : List UInt8) : env_complete htab var cmdv buf dollar_comp = some ⟨0,cmdv,buf⟩ := by
  simp [env_complete,refused]

/-- The indices behind `idx`, below the last one, of the keys that begin with a string. -/
def behind (htab : Htab) (name : Str) (idx : Nat) : List Nat :=
  (List.range' (idx+1) (htab.size-1-idx)).filter (begins htab name)

variable {htab : Htab} {name : Str}

theorem hmatch_loop_behind {rounds idx : Nat} (enough : htab.size ≤ idx+rounds+1) :
    ((hmatch_loop htab name rounds (idx+1)).ret = 0 ∧ behind htab name idx = []) ∨
      ∃ i, idx < i ∧ i < htab.size ∧ (hmatch_loop htab name rounds (idx+1)).ret = i ∧ behind htab name idx = i :: behind htab name i := by
  induction rounds generalizing idx with
  | zero =>
    refine .inl ⟨rfl,?_⟩
    rw [behind,show htab.size-1-idx = 0 by omega]
    rfl
  | succ rounds ih =>
    rw [hmatch_loop]
    by_cases inside : idx+1 < htab.size
    · have next : behind htab name idx = if begins htab name (idx+1) then (idx+1) :: behind htab name (idx+1) else behind htab name (idx+1) := by
        rw [behind,show htab.size-1-idx = (htab.size-1-(idx+1))+1 by omega,range'_succ,filter_cons]
        rfl
      rw [if_pos inside,next]
      cases here : begins htab name (idx+1) with
      | true => exact .inr ⟨idx+1,by omega,inside,rfl,rfl⟩
      | false =>
        rcases @ih (idx+1) (by omega) with ended | ⟨i,low,high,found,rest⟩
        · exact .inl ended
        · exact .inr ⟨i,by omega,high,found,rest⟩
    · refine .inl ⟨by rw [if_neg inside],?_⟩
      rw [behind,show htab.size-1-idx = 0 by omega]
      rfl

theorem hmatch_behind (htab : Htab) (name : Str) (idx : Nat) :
    ((hmatch_r htab name idx).ret = 0 ∧ behind htab name idx = []) ∨
      ∃ i, idx < i ∧ i < htab.size ∧ (hmatch_r htab name idx).ret = i ∧ behind htab name idx = i :: behind htab name i :=
  hmatch_loop_behind (by omega)

theorem enumerate_behind {rounds idx : Nat} (some_round : 0 < rounds) (enough : htab.size ≤ idx+rounds) :
    enumerate htab name rounds idx = some (behind htab name idx) := by
  induction rounds generalizing idx with
  | zero => omega
  | succ rounds ih =>
    rw [enumerate]
    rcases hmatch_behind htab name idx with ⟨ended,rest⟩ | ⟨i,low,high,found,rest⟩
    · simp [ended,rest]
    · have nonzero : i ≠ 0 := by omega
      simp [found,nonzero,@ih i (by omega) (by omega),rest]

theorem behind_sorted (idx : Nat) : (behind htab name idx).Pairwise (· < ·) :=
  List.Pairwise.filter _ pairwise_lt_range'

theorem mem_behind {idx i : Nat} : i ∈ behind htab name idx ↔ idx < i ∧ i < htab.size ∧ begins htab name i = true := by
  rw [behind,mem_filter,mem_range'_1]
  constructor
  · rintro ⟨inside,here⟩
    exact ⟨by omega,by omega,here⟩
  · rintro ⟨low,high,here⟩
    exact ⟨by omega,here⟩

def shown (dollar_comp : Bool) (key : Str) : Str := if dollar_comp then DOLLAR :: BRACE :: key ++ [CLOSING] else key

def texts (dollar_comp : Bool) (keys : List Str) : List UInt8 := keys.flatMap fun key => shown dollar_comp key ++ [NUL]

def places (dollar_comp : Bool) : Nat → List Str → List Pointer
  | _, [] => []
  | off, key :: keys => .place off :: places dollar_comp (off+(shown dollar_comp key).length+1) keys

variable {dollar_comp : Bool}

theorem places_length (dollar_comp : Bool) (off : Nat) (keys : List Str) : (places dollar_comp off keys).length = keys.length := by
  induction keys generalizing off with
  | nil => rfl
  | cons key keys ih => simp [places,ih]

theorem texts_cons (key : Str) (keys : List Str) :
    texts dollar_comp (key :: keys) = shown dollar_comp key ++ [NUL] ++ texts dollar_comp keys := rfl

theorem places_snoc (off : Nat) (keys : List Str) (key : Str) :
    places dollar_comp off (keys ++ [key]) = places dollar_comp off keys ++ [.place (off+(texts dollar_comp keys).length)] := by
  induction keys generalizing off with
  | nil => rfl
  | cons k keys ih =>
    rw [cons_append,places,ih,places,texts_cons,cons_append]
    simp only [length_append,length_singleton,add_assoc]

theorem texts_snoc (keys : List Str) (key : Str) :
    texts dollar_comp (keys ++ [key]) = texts dollar_comp keys ++ (shown dollar_comp key ++ [NUL]) := by
  simp [texts]

theorem text_place {front tail : List UInt8} {text : Str} (plain : NUL ∉ text) :
    (Pointer.place front.length).text (front ++ (text ++ [NUL]) ++ tail) = text := by
  have all : ∀ c ∈ text, decide (c ≠ NUL) = true := by
    intro c member
    simp only [ne_eq,decide_not,Bool.not_eq_eq_eq_not,Bool.not_true,decide_eq_false_iff_not]
    rintro rfl
    exact plain member
  rw [Pointer.text,append_assoc,drop_left,append_assoc,takeWhile_append_of_pos all]
  simp

theorem shown_plain {key : Str} (plain : NUL ∉ key) : NUL ∉ shown dollar_comp key := by
  cases dollar_comp with
  | false => exact plain
  | true => simp [shown,NUL,DOLLAR,BRACE,CLOSING,show (0 : UInt8) ∉ key from plain]

theorem places_text {keys : List Str} (plain : ∀ key ∈ keys, NUL ∉ key) (front tail : List UInt8) :
    (places dollar_comp front.length keys).map (Pointer.text (front ++ texts dollar_comp keys ++ tail)) =
      keys.map (shown dollar_comp) := by
  induction keys generalizing front with
  | nil => rfl
  | cons key keys ih =>
    have here := plain key mem_cons_self
    have split : front ++ texts dollar_comp (key :: keys) ++ tail =
        front ++ (shown dollar_comp key ++ [NUL]) ++ (texts dollar_comp keys ++ tail) := by simp [texts]
    have later := ih (fun k member => plain k (mem_cons_of_mem _ member)) (front ++ (shown dollar_comp key ++ [NUL]))
    rw [append_assoc _ (texts dollar_comp keys),← split] at later
    rw [places,map_cons,map_cons]
    congr 1
    · rw [split]
      exact text_place (shown_plain here)
    · simpa [add_assoc] using later

theorem store_append {α : Type} (front : List α) {tail elements : List α} (room : elements.length ≤ tail.length) :
    store (front ++ tail) front.length elements = some (front ++ elements ++ tail.drop elements.length) := by
  rw [store,if_pos (by rw [length_append]; omega),take_left,drop_append,drop_of_length_le (by omega),
    Nat.add_sub_cancel_left,nil_append]

structure Written (dollar_comp : Bool) (maxv size : Nat) (s : Listing) (keys : List Str) : Prop where
  found : s.found = keys.length
  off : s.off = (texts dollar_comp keys).length
  bufsz : s.bufsz = size-s.off
  buf : ∃ tail, s.buf = texts dollar_comp keys ++ tail
  length : s.buf.length = size
  cmdv : ∃ rest, s.cmdv = places dollar_comp 0 keys ++ rest
  width : s.cmdv.length = maxv

variable {maxv size : Nat} {s : Listing} {keys : List Str}

theorem complete_key_written (written : Written dollar_comp maxv size s keys) {key : Str} (element : s.found < maxv)
    (room : (key.length+1 : Int)+(if dollar_comp then 3 else 0) ≤ s.bufsz) :
    ∃ after, complete_key dollar_comp key s = some after ∧ Written dollar_comp maxv size after (keys ++ [key]) := by
  obtain ⟨found,off,bufsz,⟨tail,buf⟩,length,⟨rest,cmdv⟩,width⟩ := written
  rw [cmdv,length_append,places_length] at width
  rw [buf,length_append] at length
  have listed : store s.cmdv s.found [.place s.off] = some (places dollar_comp 0 (keys ++ [key]) ++ rest.drop 1) := by
    have at_found : s.found = (places dollar_comp 0 keys).length := by rw [places_length,found]
    rw [cmdv,at_found,store_append _ (by simp; omega),off,places_snoc,zero_add]
    rfl
  have vector : (places dollar_comp 0 (keys ++ [key]) ++ rest.drop 1).length = maxv := by
    simp only [length_append,places_length,length_singleton,length_drop]
    omega
  unfold complete_key
  dsimp only
  rw [listed,bind_some]
  cases dollar_comp with
  | false =>
    have fits : (key ++ [NUL]).length ≤ tail.length := by
      simp only [length_append,length_singleton]
      simp only [if_false,Bool.false_eq_true] at room
      omega
    have copied : strcpy s.buf s.off key = some (texts false (keys ++ [key]) ++ tail.drop (key.length+1)) := by
      rw [strcpy,buf,off,store_append _ fits,texts_snoc,append_assoc]
      simp [shown]
    simp only [if_false,Bool.false_eq_true,copied,map_some]
    refine ⟨_,rfl,?_⟩
    simp only [length_append,length_singleton] at fits
    refine ⟨by simp [found],?_,?_,⟨_,rfl⟩,?_,⟨_,rfl⟩,vector⟩
    · simp [texts_snoc,shown,off]
    · simp only
      omega
    · simp only [texts_snoc,shown,length_append,length_drop,length_singleton,if_false,Bool.false_eq_true]
      omega
  | true =>
    have fits : key.length+4 ≤ tail.length := by
      simp only [if_true] at room
      omega
    have opened : strcpy s.buf s.off [DOLLAR,BRACE] =
        some ((texts true keys ++ [DOLLAR,BRACE]) ++ NUL :: tail.drop 3) := by
      rw [strcpy,buf,off,store_append _ (by simp; omega)]
      simp
    have copied : strcpy ((texts true keys ++ [DOLLAR,BRACE]) ++ NUL :: tail.drop 3) (s.off+2) key =
        some ((texts true keys ++ [DOLLAR,BRACE] ++ key) ++ NUL :: tail.drop (3+key.length)) := by
      rw [strcpy,show s.off+2 = (texts true keys ++ [DOLLAR,BRACE]).length by simp [off],store_append _ (by simp; omega)]
      simp
    have closed : strcpy ((texts true keys ++ [DOLLAR,BRACE] ++ key) ++ NUL :: tail.drop (3+key.length))
        (s.off+2+(key.length+1)-1) [CLOSING] = some (texts true (keys ++ [key]) ++ tail.drop (4+key.length)) := by
      rw [strcpy,show s.off+2+(key.length+1)-1 = (texts true keys ++ [DOLLAR,BRACE] ++ key).length by simp [off]; omega,
        store_append _ (by simp; omega),texts_snoc]
      simp [shown,add_comm,add_left_comm]
    simp only [if_true,opened,copied,closed,bind_some,map_some]
    refine ⟨_,rfl,?_⟩
    refine ⟨by simp [found],?_,?_,⟨_,rfl⟩,?_,⟨_,rfl⟩,vector⟩
    · simp only [texts_snoc,shown,off,if_true,length_append,length_cons,length_nil]
      omega
    · simp only
      omega
    · simp only [texts_snoc,shown,length_append,length_drop,length_cons,length_nil,if_true]
      omega

theorem complete_loop_written {rounds idx : Nat} (some_round : 0 < rounds) (enough : htab.size ≤ idx+rounds)
    (written : Written dollar_comp maxv size s keys) (narrow : s.found+2 ≤ maxv) :
    ∃ stop after listed left, complete_loop htab name maxv dollar_comp rounds idx s = some (stop,after) ∧
      (behind htab name idx).map (fun i => (htab.at i).key) = listed ++ left ∧
      Written dollar_comp maxv size after (keys ++ listed) ∧ after.found+2 ≤ maxv ∧ (stop = 0 ↔ left = []) := by
  induction rounds generalizing idx s keys with
  | zero => omega
  | succ rounds ih =>
    rw [complete_loop]
    rcases hmatch_behind htab name idx with ⟨ended,rest⟩ | ⟨i,low,high,found,rest⟩
    · exact ⟨0,s,[],[],by simp [ended],by simp [rest],by simpa using written,narrow,by simp⟩
    have nonzero : i ≠ 0 := by omega
    simp only [found,nonzero,if_false]
    by_cases full : (maxv : Int)-2 ≤ s.found ∨ s.bufsz < ((htab.at i).key.length : Int)+1+(if dollar_comp then 3 else 0)
    · exact ⟨i,s,[],_,if_pos full,rfl,by simpa using written,narrow,by simp [rest,nonzero]⟩
    rw [if_neg full]
    simp only [not_or,not_le,not_lt] at full
    obtain ⟨next,entered,more⟩ := complete_key_written written (show s.found < maxv by omega) full.2
    have counted : next.found = s.found+1 := by
      rw [more.found,written.found,length_append]
      rfl
    obtain ⟨stop,after,listed,left,runs,split,done,ends,zero⟩ := @ih next _ i (by omega) (by omega) more (by omega)
    refine ⟨stop,after,(htab.at i).key :: listed,left,?_,?_,?_,ends,zero⟩
    · rw [entered,bind_some,runs]
    · rw [rest,map_cons,split,cons_append]
    · simpa using done

def matching (htab : Htab) (name : Str) : List Str :=
  ((List.range' 1 htab.size).filter (begins htab name)).map fun i => (htab.at i).key

/-- The calls of `hmatch_r` end, and go through every slot of a matching key once. -/
def Enumerates (htab : Htab) (name : Str) : Prop :=
  ∃ visited, enumerate htab name (htab.size+1) 0 = some visited ∧ visited.Nodup ∧
    ∀ i, i ∈ visited ↔ 1 ≤ i ∧ i ≤ htab.size ∧ begins htab name i = true

/-- Nothing is written outside, the vector ends with null, and it lists every
    matching key, or some of them and the marker. -/
def Completes (htab : Htab) (name var : Str) (cmdv : List Pointer) (buf : List UInt8) (dollar_comp : Bool) : Prop :=
  ∃ done, env_complete htab var cmdv buf dollar_comp = some done ∧ done.cmdv[done.ret]? = some .null ∧
    (done.listed.Perm ((matching htab name).map (shown dollar_comp)) ∨
      ∃ (front listed : List Str), done.listed = front ++ [marker dollar_comp] ∧ front.Perm (listed.map (shown dollar_comp)) ∧
        listed.Sublist (matching htab name))

theorem matching_behind (positive : 1 ≤ htab.size) :
    matching htab name = (behind htab name 0).map (fun i => (htab.at i).key) ++
      if begins htab name htab.size then [(htab.at htab.size).key] else [] := by
  have split : range' 1 htab.size = range' (0+1) (htab.size-1-0) ++ [htab.size] := by
    rw [show htab.size = htab.size-1+1 by omega,range'_concat]
    simp [add_comm]
  rw [matching,split,filter_append,map_append,behind]
  congr 1
  cases last : begins htab name htab.size with
  | false => simp [last]
  | true => simp [last]

theorem enumerates_iff (positive : 1 ≤ htab.size) : Enumerates htab name ↔ begins htab name htab.size = false := by
  have runs : enumerate htab name (htab.size+1) 0 = some (behind htab name 0) := enumerate_behind (by omega) (by omega)
  constructor
  · rintro ⟨visited,is,-,all⟩
    obtain rfl := Option.some.inj (runs.symm.trans is)
    by_contra last
    have member := (all htab.size).mpr ⟨positive,le_rfl,by simpa using last⟩
    have := (mem_behind.mp member).2.1
    omega
  · intro last
    refine ⟨_,runs,(behind_sorted 0).imp fun less => ne_of_lt less,fun i => ?_⟩
    rw [mem_behind]
    constructor
    · rintro ⟨low,high,here⟩
      exact ⟨low,by omega,here⟩
    · rintro ⟨low,high,here⟩
      refine ⟨low,?_,here⟩
      have : i ≠ htab.size := by
        rintro rfl
        simp [last] at here
      omega

theorem qsort_read {s : Listing} (written : Written dollar_comp maxv size s keys) (plain : ∀ key ∈ keys, NUL ∉ key) :
    ∃ sorted rest, qsort s.buf s.found s.cmdv = sorted ++ rest ∧ sorted.length = s.found ∧ s.found+rest.length = maxv ∧
      (sorted.map (Pointer.text s.buf)).Perm (keys.map (shown dollar_comp)) := by
  obtain ⟨found,-,-,⟨tail,buf⟩,-,⟨rest,cmdv⟩,width⟩ := written
  have listed : s.cmdv.take s.found = places dollar_comp 0 keys := by
    rw [cmdv,found,← places_length dollar_comp 0 keys,take_left]
  have behind : s.cmdv.drop s.found = rest := by
    rw [cmdv,found,← places_length dollar_comp 0 keys,drop_left]
  refine ⟨_,rest,by rw [qsort,behind],?_,?_,?_⟩
  · rw [length_mergeSort,listed,places_length,found]
  · rw [← width,cmdv,length_append,places_length,found]
  · refine ((mergeSort_perm _ _).map _).trans ?_
    have read := @places_text dollar_comp _ plain [] tail
    rw [nil_append,← buf,length_nil] at read
    rw [listed,read]

theorem completes_wide {var : Str} (asked : completed_name dollar_comp var = some name)
    (plain : ∀ key ∈ matching htab name, NUL ∉ key) (positive : 1 ≤ htab.size) (last : begins htab name htab.size = false)
    {cmdv : List Pointer} (wide : 2 ≤ cmdv.length) (buf : List UInt8) : Completes htab name var cmdv buf dollar_comp := by
  have all : matching htab name = (behind htab name 0).map fun i => (htab.at i).key := by
    rw [matching_behind positive,last]
    simp
  have cleared : store cmdv 0 [.null] = some (.null :: cmdv.drop 1) := by
    rw [store,if_pos (by simp; omega)]
    simp
  have start : Written dollar_comp cmdv.length buf.length ⟨0,0,buf.length,.null :: cmdv.drop 1,buf⟩ [] :=
    ⟨rfl,rfl,by simp,⟨buf,rfl⟩,rfl,⟨_,rfl⟩,by simp; omega⟩
  obtain ⟨stop,after,listed,left,runs,split,written,narrow,zero⟩ :=
    @complete_loop_written htab name dollar_comp _ _ _ _ (htab.size+1) 0 (by omega) (by omega) start (by simpa using wide)
  rw [nil_append] at written
  rw [← all] at split
  obtain ⟨sorted,rest,arranged,count,whole,read⟩ := qsort_read written (fun key member => plain key (by rw [split]; simp [member]))
  unfold Completes env_complete
  simp only [asked,cleared,runs,bind_eq_bind,bind_some,arranged]
  by_cases ended : stop = 0
  · have closed : store (sorted ++ rest) after.found [.null] = some (sorted ++ [.null] ++ rest.drop 1) := by
      rw [← count,store_append _ (by simp; omega)]
      rfl
    simp only [ended,ne_eq,not_true_eq_false,if_false,bind_some,closed]
    refine ⟨_,rfl,?_,.inl ?_⟩
    · simp [← count]
    · rw [split,zero.mp ended,append_nil]
      simpa [Completed.listed,← count] using read
  have marked : store (sorted ++ rest) after.found [.literal (marker dollar_comp)] =
      some (sorted ++ [.literal (marker dollar_comp)] ++ rest.drop 1) := by
    rw [← count,store_append _ (by simp; omega)]
    rfl
  have closed : store (sorted ++ [.literal (marker dollar_comp)] ++ rest.drop 1) (after.found+1) [.null] =
      some (sorted ++ [.literal (marker dollar_comp)] ++ [.null] ++ (rest.drop 1).drop 1) := by
    rw [show after.found+1 = (sorted ++ [Pointer.literal (marker dollar_comp)]).length by simp [count],store_append _ (by simp; omega)]
    rfl
  simp only [ended,ne_eq,not_false_eq_true,if_true,marked,map_some,bind_some,closed]
  refine ⟨_,rfl,?_,.inr ⟨sorted.map (Pointer.text after.buf),listed,?_,read,?_⟩⟩
  · simp [← count]
  · have taken : (sorted ++ [Pointer.literal (marker dollar_comp)] ++ [Pointer.null] ++ (rest.drop 1).drop 1).take (after.found+1) =
        sorted ++ [.literal (marker dollar_comp)] := by
      rw [append_assoc _ [Pointer.null],
        show after.found+1 = (sorted ++ [Pointer.literal (marker dollar_comp)]).length by simp [count],take_left]
    simp only [Completed.listed,taken,map_append]
    rfl
  · rw [split]
    exact sublist_append_left _ _

theorem completes_single {var : Str} (asked : completed_name dollar_comp var = some name) (positive : 1 ≤ htab.size)
    (last : begins htab name htab.size = false) {cmdv : List Pointer} (single : cmdv.length = 1) (buf : List UInt8) :
    Completes htab name var cmdv buf dollar_comp ↔ matching htab name = [] := by
  obtain ⟨p,rfl⟩ := length_eq_one_iff.mp single
  have cleared : store [p] 0 [.null] = some [.null] := rfl
  have all : matching htab name = (behind htab name 0).map fun i => (htab.at i).key := by
    rw [matching_behind positive,last]
    simp
  rw [all,map_eq_nil_iff]
  unfold Completes env_complete
  simp only [asked,cleared,bind_eq_bind,bind_some]
  rw [complete_loop]
  rcases hmatch_behind htab name 0 with ⟨ended,rest⟩ | ⟨i,low,-,found,rest⟩
  · simp [ended,rest,all,qsort,store,Completed.listed]
  · have nonzero : i ≠ 0 := by omega
    simp [found,nonzero,rest,qsort,store]

theorem entered_of_last {history : List (Op × Bool)} {key data : Str} (last : last_entered history key = some data) :
    ∃ replies, (.enter key data replies,true) ∈ history := by
  induction history with
  | nil => simp [last_entered] at last
  | cons event older ih =>
    obtain ⟨op,accepted⟩ := event
    have earlier : (∃ replies, (.enter key data replies,true) ∈ older) →
        ∃ replies, (.enter key data replies,true) ∈ (op,accepted) :: older :=
      Exists.imp fun _ member => mem_cons_of_mem _ member
    cases accepted with
    | false => exact earlier (ih (by cases op <;> exact last))
    | true =>
      cases op with
      | find k => exact earlier (ih last)
      | enter k d replies =>
        rw [last_entered_enter,update_apply] at last
        by_cases here : key = k
        · rw [if_pos here,some_inj] at last
          subst here last
          exact ⟨replies,mem_cons_self⟩
        · rw [if_neg here] at last
          exact earlier (ih last)
      | delete k replies =>
        rw [last_entered_delete,update_apply] at last
        by_cases here : key = k
        · simp [here] at last
        · rw [if_neg here] at last
          exact earlier (ih last)

theorem history_run (s : Session) (ops : List Op) : ∀ event ∈ (run step s ops).history, event ∈ s.history ∨ event.1 ∈ ops := by
  induction ops generalizing s with
  | nil => exact fun event member => .inl member
  | cons op ops ih =>
    intro event member
    rcases ih (step s op) event member with before | later
    · rw [step] at before
      cases performed : perform s.htab op with
      | none => exact .inl (by simpa [performed] using before)
      | some result =>
        simp only [performed,mem_cons] at before
        rcases before with rfl | before
        · exact .inr mem_cons_self
        · exact .inl before
    · exact .inr (mem_cons_of_mem _ later)

/-- What a table stores has been entered. -/
theorem stored_entered {nel : Nat} (small : nel < 2^31) {htab : Htab} (created : hcreate_r nel = some htab) {ops : List Op}
    {key data : Str} (stored : Stores (run step ⟨htab,[]⟩ ops).htab key data) : ∃ replies, .enter key data replies ∈ ops := by
  obtain ⟨new,same,valid,empty,_⟩ := hcreate_spec small
  rw [same,some_inj] at created
  subst created
  obtain ⟨valid,represents⟩ := refines_run (s := ⟨new,[]⟩) ⟨valid,empty⟩ ops
  obtain ⟨replies,entered⟩ := entered_of_last ((represents _ _).mp ((stores_iff valid).mp stored))
  rcases history_run _ _ _ entered with before | now
  · simp at before
  · exact ⟨replies,now⟩

theorem keys_plain {nel : Nat} (small : nel < 2^31) {htab : Htab} (created : hcreate_r nel = some htab) {ops : List Op}
    (strings : ∀ key data replies, .enter key data replies ∈ ops → NUL ∉ key) :
    ∀ key ∈ matching (run step ⟨htab,[]⟩ ops).htab name, NUL ∉ key := by
  intro key member
  obtain ⟨i,inside,rfl⟩ := List.mem_map.mp member
  obtain ⟨range,here⟩ := mem_filter.mp inside
  rw [mem_range'_1] at range
  simp only [begins,Bool.decide_and,Bool.and_eq_true,decide_eq_true_eq] at here
  obtain ⟨replies,entered⟩ := stored_entered small created ⟨i,by omega,by omega,here.1,rfl,rfl⟩
  exact strings _ _ _ entered

/-- In every table that operations on strings make: the calls of `hmatch_r` go
    through the matching keys exactly where none of them is in the last slot, and
    the completion is as good as that where the vector has room for the marker. -/
theorem env_complete_iff {nel : Nat} (small : nel < 2^31) {htab : Htab} (created : hcreate_r nel = some htab) {ops : List Op}
    (strings : ∀ key data replies, .enter key data replies ∈ ops → NUL ∉ key) {dollar_comp : Bool} {var name : Str}
    (asked : completed_name dollar_comp var = some name) (cmdv : List Pointer) (buf : List UInt8) :
    let htab := (run step ⟨htab,[]⟩ ops).htab
    (Enumerates htab name ↔ begins htab name htab.size = false) ∧
      (Enumerates htab name ∧ Completes htab name var cmdv buf dollar_comp ↔
        begins htab name htab.size = false ∧ (2 ≤ cmdv.length ∨ cmdv.length = 1 ∧ matching htab name = [])) := by
  have positive : 1 ≤ (run step ⟨htab,[]⟩ ops).htab.size := size_pos (valid_run small created ops)
  have plain := @keys_plain name _ small _ created _ strings
  refine ⟨enumerates_iff positive,?_⟩
  rw [enumerates_iff positive]
  refine and_congr_right fun last => ?_
  constructor
  · intro completes
    obtain none | single | wide : cmdv.length = 0 ∨ cmdv.length = 1 ∨ 2 ≤ cmdv.length := by omega
    · obtain ⟨done,runs,-⟩ := completes
      simp [env_complete,asked,store,none] at runs
    · exact .inr ⟨single,(completes_single asked positive last single buf).mp completes⟩
    · exact .inl wide
  · rintro (wide | ⟨single,none⟩)
    · exact completes_wide asked plain positive last wide buf
    · exact (completes_single asked positive last single buf).mpr none

/-- A table of five slots, with `a` and `ab`. -/
theorem env_complete_of_two : ∃ htab, hcreate_r 2 = some htab ∧
    let htab := (run step ⟨htab,[]⟩ [.enter [97] [49] ⟨0,0⟩,.enter [97,98] [50] ⟨0,0⟩]).htab
    Enumerates htab [97] ∧ Completes htab [97] [36,123,97] (List.replicate 4 .null) (List.replicate 16 0) true := by
  have made : hcreate_r 2 = some ⟨List.replicate 6 ⟨USED_FREE,[],[]⟩,5,0⟩ := by decide +kernel
  refine ⟨_,made,?_⟩
  refine (env_complete_iff (by norm_num) made ?_ (by decide) _ _).2.mpr ⟨by decide +kernel,.inl (by simp)⟩
  intro key data replies member
  simp only [List.mem_cons,Op.enter.injEq,List.not_mem_nil,or_false] at member
  rcases member with ⟨rfl,-⟩ | ⟨rfl,-⟩
  · simp [NUL]
  · simp [NUL]

/-- The third of three keys that begin with the same index is in the last slot, and
    is not listed. -/
theorem env_complete_last_slot : ∃ htab, hcreate_r 2 = some htab ∧
    let htab := (run step ⟨htab,[]⟩ [.enter [98] [49] ⟨0,0⟩,.enter [103] [50] ⟨0,0⟩,.enter [108] [51] ⟨0,0⟩]).htab
    htab.at 5 = ⟨4,[108],[51]⟩ ∧ enumerate htab [108] 6 0 = some [] ∧ ¬Enumerates htab [108] ∧
      env_complete htab [108] (List.replicate 20 .null) (List.replicate 512 0) false =
        some ⟨0,List.replicate 20 .null,List.replicate 512 0⟩ := by
  have made : hcreate_r 2 = some ⟨List.replicate 6 ⟨USED_FREE,[],[]⟩,5,0⟩ := by decide +kernel
  refine ⟨_,made,by decide +kernel,by decide +kernel,?_,by decide +kernel⟩
  rw [enumerates_iff (by decide +kernel)]
  decide +kernel

end UBoot.EnvComplete
