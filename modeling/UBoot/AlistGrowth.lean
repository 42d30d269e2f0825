import UBoot.Buffers

/-!
Growable lists of objects, `lib/alist.c`. The data are a block of memory, and an access outside of
it is a fault. `malloc` and `calloc` give a block of the size, with whatever it holds, or none. The
numbers of objects are kept in 16 bits, but the size that a list grows to is found in 32 bits.
-/
namespace UBoot.AlistGrowth
open UBoot.Buffers List Option

def ALIST_INITIAL_SIZE : ℕ := 4

/-- `struct alist`; of the flags there is only `ALISTF_FAIL`. -/
structure Alist where
  data : Option (List UInt8)
  obj_size : ℕ
  count : ℕ
  alloc : ℕ
  fail : Bool
deriving DecidableEq

abbrev Object := List UInt8

/-- The allocator at a call: a block of the size that is asked for, or none. -/
structure Allocator where
  block : ℕ → Option (List UInt8)
  sized : ∀ size data, block size = some data → data.length = size

/-- Why a call does not return: an access outside a block or a division by zero, or a loop
    that is not over after as many rounds as it is given. -/
inductive Stop where
  | faults
  | loops
deriving DecidableEq

/-- The value of an `int` product as a `size_t`. -/
def int_size (n : ℕ) : ℕ := if n%2^32 < 2^31 then n%2^32 else n%2^32+2^64-2^32

def alist_init (allocator : Allocator) (obj_size start_size : ℕ) : Alist × Bool :=
  if start_size ≠ 0 then
    match allocator.block (obj_size*start_size) with
    | none => (⟨none,0,0,0,true⟩,false)
    | some data => (⟨some (List.replicate data.length 0),obj_size%2^16,0,start_size%2^16,false⟩,true)
  else (⟨none,obj_size%2^16,0,0,false⟩,true)

def alist_empty (lst : Alist) : Alist := { lst with count := 0 }

/-- The new block of `alist_expand_to`, with the old objects and zeros behind them. -/
def expanded (lst : Alist) (new_data : List UInt8) (new_alloc : ℕ) : Option (List UInt8) := do
  let data := lst.data.getD []
  let size := int_size (lst.obj_size*lst.alloc)
  if data.length < size then none
  else
    let new_data ← write new_data 0 (data.take size)
    write new_data (lst.obj_size*lst.alloc)
      (List.replicate (lst.obj_size*((new_alloc+2^32-lst.alloc)%2^32)%2^32) 0)

def alist_expand_to (allocator : Allocator) (lst : Alist) (new_alloc : ℕ) : Except Stop (Alist × Bool) :=
  if lst.fail then .ok (lst,false)
  else
    match allocator.block (lst.obj_size*new_alloc%2^32) with
    | none => .ok ({ lst with fail := true },false)
    | some new_data =>
      match expanded lst new_data new_alloc with
      | none => .error .faults
      | some new_data => .ok ({ lst with alloc := new_alloc%2^16, data := some new_data },true)

def alist_expand_by (allocator : Allocator) (lst : Alist) (inc_by : ℕ) : Except Stop (Alist × Bool) :=
  alist_expand_to allocator lst ((lst.alloc+inc_by)%2^32)

def double_until (min_alloc : ℕ) : ℕ → ℕ → Option ℕ
  | 0, _ => none
  | rounds+1, new_alloc =>
    if new_alloc < min_alloc then double_until min_alloc rounds (new_alloc*2%2^32) else some new_alloc

def first_alloc (lst : Alist) : ℕ := if lst.alloc = 0 then ALIST_INITIAL_SIZE else lst.alloc

def alist_expand_min (rounds : ℕ) (allocator : Allocator) (lst : Alist) (min_alloc : ℕ) : Except Stop (Alist × Bool) :=
  match double_until min_alloc rounds (first_alloc lst) with
  | none => .error .loops
  | some new_alloc => alist_expand_to allocator lst new_alloc

def alist_get_ptr (lst : Alist) (index : ℕ) : Option ℕ :=
  if lst.count ≤ index then none else some (index*lst.obj_size%2^32)

def alist_ensure_ptr (rounds : ℕ) (allocator : Allocator) (lst : Alist) (index : ℕ) : Except Stop (Alist × Option ℕ) := do
  let minsize := (index+1)%2^32
  let (lst,ok) ← if lst.alloc ≤ index then alist_expand_min rounds allocator lst minsize else .ok (lst,true)
  if !ok then .ok (lst,none)
  else
    let ptr := index*lst.obj_size%2^32
    .ok (if lst.count ≤ minsize then { lst with count := minsize%2^16 } else lst,some ptr)

def fill (lst : Alist) (ptr : ℕ) (obj : Object) : Except Stop Alist :=
  match write (lst.data.getD []) ptr (obj.take lst.obj_size) with
  | none => .error .faults
  | some data => .ok { lst with data := some data }

/-- `alist_add_ptr`, with `alist_add_placeholder` -/
def alist_add_ptr (rounds : ℕ) (allocator : Allocator) (lst : Alist) (obj : Object) : Except Stop (Alist × Option ℕ) := do
  let (lst,ptr) ← alist_ensure_ptr rounds allocator lst lst.count
  match ptr with
  | none => .ok (lst,none)
  | some ptr => .ok (← fill lst ptr obj,some ptr)

/-- `alist_update_end`, with `alist_calc_index`, for a pointer that is not below the data;
    -1 is a number of 32 bits here. -/
def alist_update_end (lst : Alist) (ptr : ℕ) : Except Stop Alist :=
  if lst.count = 0 then .ok { lst with count := 0 }
  else if lst.obj_size = 0 then .error .faults
  else
    let index := ptr/lst.obj_size%2^32
    .ok { lst with count := if index = 2^32-1 then 0 else index%2^16 }

def object (data : List UInt8) (size index : ℕ) : Object := (data.drop (index*size)).take size

/-- The loop of `alist_for_each_filter` with the body `if (keep(from)) *to++ = *from`, with
    as many objects still to come from the index `pos` on; the data and `to`. -/
def filter_loop (keep : Object → Bool) (size : ℕ) : ℕ → ℕ → ℕ → List UInt8 → Option (List UInt8 × ℕ)
  | 0, _, to_, data => some (data,to_)
  | left+1, pos, to_, data =>
    if data.length < pos*size+size then none
    else if keep (object data size pos) then do
      let data ← write data (to_*size) (object data size pos)
      filter_loop keep size left (pos+1) (to_+1) data
    else filter_loop keep size left (pos+1) to_ data

/-- Filtering with `alist_for_each_filter` and `alist_update_end`; objects without bytes are
    at the end at once. -/
def alist_filter (lst : Alist) (keep : Object → Bool) : Except Stop Alist :=
  match filter_loop keep lst.obj_size (if lst.obj_size = 0 then 0 else lst.count) 0 0 (lst.data.getD []) with
  | none => .error .faults
  | some (data,to_) => alist_update_end { lst with data := lst.data.map fun _ => data } (to_*lst.obj_size)

/-- A call; a caller of `alist_ensure_ptr` may write an object through the pointer. -/
inductive Op where
  | add (obj : Object)
  | ensure (index : ℕ) (obj : Option Object)
  | get (index : ℕ)
  | expand_by (inc_by : ℕ)
  | empty
  | filter (keep : Object → Bool)

inductive Ret where
  | ptr (ptr : Option ℕ)
  | ok (ok : Bool)
  | nothing
deriving DecidableEq

def step (rounds : ℕ) (lst : Alist) (call : Op × Allocator) : Except Stop (Alist × Ret) :=
  match call.1 with
  | .add obj => do
    let (lst,ptr) ← alist_add_ptr rounds call.2 lst obj
    .ok (lst,.ptr ptr)
  | .ensure index obj => do
    let (lst,ptr) ← alist_ensure_ptr rounds call.2 lst index
    match ptr, obj with
    | some ptr, some obj => .ok (← fill lst ptr obj,.ptr (some ptr))
    | _, _ => .ok (lst,.ptr ptr)
  | .get index => .ok (lst,.ptr (alist_get_ptr lst index))
  | .expand_by inc_by => do
    let (lst,ok) ← alist_expand_by call.2 lst inc_by
    .ok (lst,.ok ok)
  | .empty => .ok (alist_empty lst,.nothing)
  | .filter keep => do .ok (← alist_filter lst keep,.nothing)

def steps (rounds : ℕ) : Alist → List (Op × Allocator) → Except Stop Alist
  | lst, [] => .ok lst
  | lst, call :: behind => do
    let (lst,_) ← step rounds lst call
    steps rounds lst behind

/-! ## Objects of one size -/

def items (lst : Alist) : List Object := (List.range lst.count).map (object (lst.data.getD []) lst.obj_size)

theorem items_length (lst : Alist) : (items lst).length = lst.count := by
  rw [items,length_map,length_range]

theorem items_get (lst : Alist) (i : ℕ) :
    (items lst)[i]? = if i < lst.count then some (object (lst.data.getD []) lst.obj_size i) else none := by
  rw [items,getElem?_map]
  split
  · next inside => rw [getElem?_range inside,map_some]
  · next outside => rw [getElem?_eq_none (by rw [length_range]; omega),map_none]

theorem items_object {after before : Alist} (same_size : after.obj_size = before.obj_size) (same_count : after.count = before.count)
    (same : items after = items before) {i : ℕ} (within : i < before.count) :
    object (after.data.getD []) before.obj_size i = object (before.data.getD []) before.obj_size i := by
  have there := congrArg (fun l : List Object => l[i]?) same
  simp only [items_get] at there
  rw [if_pos within,if_pos (same_count ▸ within),same_size] at there
  exact Option.some.inj there

section
variable {data data' : List UInt8} {size i j k : ℕ} {obj : Object}

theorem object_take (inside : i*size+size ≤ k) : object (data.take k) size i = object data size i := by
  rw [object,object,drop_take,take_take,min_eq_left (by omega)]

theorem object_same (inside : i*size+size ≤ k) (same : data'.take k = data.take k) :
    object data' size i = object data size i := by
  rw [← @object_take data' size i k inside,same,object_take inside]

theorem object_length (inside : i*size+size ≤ data.length) : (object data size i).length = size := by
  rw [object,length_take,length_drop]
  omega

theorem write_spec (written : write data (i*size) obj = some data') (whole : obj.length = size) :
    i*size+size ≤ data.length ∧ data' = data.take (i*size) ++ (obj ++ data.drop (i*size+size)) := by
  rw [write,whole] at written
  split at written
  · next inside =>
    cases written
    exact ⟨inside,rfl⟩
  · cases written

theorem write_length (written : write data (i*size) obj = some data') (whole : obj.length = size) :
    data'.length = data.length := by
  obtain ⟨inside,rfl⟩ := write_spec written whole
  simp only [length_append,length_take,length_drop]
  omega

theorem write_here (written : write data (i*size) obj = some data') (whole : obj.length = size) :
    object data' size i = obj := by
  obtain ⟨inside,rfl⟩ := write_spec written whole
  rw [object,drop_left' (by rw [length_take]; omega),take_left' whole]

theorem write_elsewhere (written : write data (i*size) obj = some data') (whole : obj.length = size) (other : j ≠ i) :
    object data' size j = object data size j := by
  obtain ⟨inside,rfl⟩ := write_spec written whole
  rcases Nat.lt_or_gt_of_ne other with below | above
  · have room : j*size+size ≤ i*size := by
      calc j*size+size = (j+1)*size := by rw [Nat.succ_mul]
        _ ≤ i*size := Nat.mul_le_mul_right size below
    refine object_same room ?_
    rw [take_left' (by rw [length_take]; omega)]
  · have room : i*size+size ≤ j*size := by
      calc i*size+size = (i+1)*size := by rw [Nat.succ_mul]
        _ ≤ j*size := Nat.mul_le_mul_right size above
    have behind : (data.take (i*size) ++ (obj ++ data.drop (i*size+size))).drop (i*size+size) = data.drop (i*size+size) := by
      rw [← append_assoc,drop_left' (by simp only [length_append,length_take]; omega)]
    rw [object,object,show j*size = i*size+size+(j*size-(i*size+size)) by omega,← drop_drop,behind,drop_drop]
end

/-! ## Growing -/

/-- The numbers of a list agree with each other and with what is allocated. -/
structure Sound (lst : Alist) : Prop where
  obj_size : lst.obj_size < 2^16
  alloc : lst.alloc < 2^16
  count : lst.count ≤ lst.alloc
  allocated : lst.alloc*lst.obj_size ≤ (lst.data.getD []).length

/-- The list is dead, or no memory is given for the new size. -/
def Refused (lst : Alist) (allocator : Allocator) (new_alloc : ℕ) : Prop :=
  lst.fail = true ∨ allocator.block (lst.obj_size*new_alloc%2^32) = none

/-- The old objects fit into the new block, and so do those that are counted for it. -/
structure Grows (lst : Alist) (new_alloc : ℕ) : Prop where
  moved : lst.obj_size*lst.alloc < 2^31 ∧ lst.obj_size*lst.alloc ≤ lst.obj_size*new_alloc%2^32
  counted : lst.count ≤ new_alloc%2^16 ∧ new_alloc%2^16*lst.obj_size ≤ lst.obj_size*new_alloc%2^32

theorem double_until_zero {min_alloc : ℕ} (some_size : 0 < min_alloc) (rounds : ℕ) : double_until min_alloc rounds 0 = none := by
  induction rounds with
  | zero => rfl
  | succ rounds ih =>
    rw [double_until,if_pos some_size]
    exact ih

theorem double_until_more {min_alloc rounds new_alloc n : ℕ} (done : double_until min_alloc rounds new_alloc = some n)
    (more : ℕ) : double_until min_alloc (rounds+more) new_alloc = some n := by
  induction rounds generalizing new_alloc with
  | zero => cases done
  | succ rounds ih =>
    rw [double_until] at done
    rw [add_right_comm,double_until]
    split
    · next below =>
      rw [if_pos below] at done
      exact ih done
    · next enough => rwa [if_neg enough] at done

theorem double_until_bits {min_alloc rounds new_alloc n moved : ℕ} (bits : moved ≤ 32) (even : 2^moved ∣ new_alloc)
    (word : new_alloc < 2^32) (done : double_until min_alloc rounds new_alloc = some n) :
    double_until min_alloc (33-moved) new_alloc = some n := by
  induction rounds generalizing new_alloc moved with
  | zero => cases done
  | succ rounds ih =>
    rw [double_until] at done
    by_cases below : new_alloc < min_alloc
    · rw [if_pos below] at done
      rcases Nat.lt_or_eq_of_le bits with some_bit | all
      · have twice : 2^(moved+1) ∣ new_alloc*2%2^32 := by
          rw [Nat.dvd_mod_iff (Nat.pow_dvd_pow 2 some_bit),pow_succ]
          exact Nat.mul_dvd_mul_right even 2
        have later := ih some_bit twice (Nat.mod_lt _ (by norm_num)) done
        rw [show 33-moved = 33-(moved+1)+1 by omega,double_until,if_pos below]
        exact later
      · have zero : new_alloc = 0 := Nat.eq_zero_of_dvd_of_lt (all ▸ even) word
        rw [zero] at below done
        rw [zero_mul,Nat.zero_mod,double_until_zero below] at done
        cases done
    · rw [if_neg below] at done
      rw [show 33-moved = 33-(moved+1)+1 by omega,double_until,if_neg below]
      exact done

theorem double_until_returns {min_alloc new_alloc n : ℕ} (word : new_alloc < 2^32)
    (done : ∃ rounds, double_until min_alloc rounds new_alloc = some n) (rounds : ℕ) :
    double_until min_alloc (rounds+33) new_alloc = some n := by
  obtain ⟨some_rounds,done⟩ := done
  have bounded := double_until_bits (Nat.zero_le 32) (one_dvd _) word done
  rw [add_comm]
  exact double_until_more bounded rounds

theorem double_until_small {min_alloc rounds new_alloc n : ℕ} (small : min_alloc ≤ 2^16)
    (done : double_until min_alloc rounds new_alloc = some n) :
    min_alloc ≤ n ∧ new_alloc ≤ n ∧ (new_alloc < min_alloc → 2*new_alloc ≤ n) := by
  induction rounds generalizing new_alloc with
  | zero => cases done
  | succ rounds ih =>
    rw [double_until] at done
    by_cases below : new_alloc < min_alloc
    · rw [if_pos below,Nat.mod_eq_of_lt (by omega)] at done
      obtain ⟨enough,twice,_⟩ := ih done
      exact ⟨enough,by omega,fun _ => by omega⟩
    · rw [if_neg below] at done
      cases done
      exact ⟨Nat.le_of_not_lt below,le_rfl,fun less => absurd less below⟩

theorem cleared_size {old whole new_alloc alloc obj_size : ℕ} (old_eq : old = obj_size*alloc)
    (whole_eq : whole = obj_size*new_alloc%2^32) (word : alloc < 2^32) (fits : old ≤ whole) :
    old+obj_size*((new_alloc+2^32-alloc)%2^32)%2^32 = whole := by
  have total : obj_size*(new_alloc+2^32-alloc)+old = obj_size*new_alloc+obj_size*2^32 := by
    rw [old_eq,← mul_add,← mul_add]
    congr 1
    omega
  rw [Nat.mul_mod_mod]
  generalize obj_size*(new_alloc+2^32-alloc) = cleared at total ⊢
  generalize obj_size*new_alloc = product at total whole_eq
  omega

theorem int_size_of_lt {n : ℕ} (positive : n < 2^31) : int_size n = n := by
  rw [int_size,Nat.mod_eq_of_lt (by omega : n < 2^32),if_pos positive]

section
variable {lst : Alist} {allocator : Allocator} {new_alloc : ℕ}

theorem expanded_spec (sound : Sound lst) (grows : Grows lst new_alloc) {new_data : List UInt8}
    (size : new_data.length = lst.obj_size*new_alloc%2^32) :
    ∃ data, expanded lst new_data new_alloc = some data ∧ data.length = lst.obj_size*new_alloc%2^32 ∧
      data.take (lst.obj_size*lst.alloc) = (lst.data.getD []).take (lst.obj_size*lst.alloc) := by
  obtain ⟨positive,fits⟩ := grows.moved
  have allocated := sound.allocated
  have small := sound.alloc
  rw [mul_comm] at allocated
  have moved : int_size (lst.obj_size*lst.alloc) = lst.obj_size*lst.alloc := int_size_of_lt positive
  have copied : ((lst.data.getD []).take (lst.obj_size*lst.alloc)).length = lst.obj_size*lst.alloc := by
    rw [length_take]
    exact min_eq_left allocated
  have cleared := cleared_size rfl rfl (by omega : lst.alloc < 2^32) fits
  rw [expanded]
  generalize lst.obj_size*((new_alloc+2^32-lst.alloc)%2^32)%2^32 = zeros at cleared ⊢
  generalize lst.obj_size*new_alloc%2^32 = whole at size cleared fits ⊢
  rw [moved]
  generalize lst.obj_size*lst.alloc = old at *
  have first : write new_data 0 ((lst.data.getD []).take old) = some ((lst.data.getD []).take old ++ new_data.drop old) := by
    rw [write,if_pos (by omega),copied,zero_add,take_zero,nil_append]
  have second := write_behind old ((lst.data.getD []).take old) (new_data.drop old) (replicate zeros 0) copied
    (by rw [length_replicate,length_drop]; omega)
  rw [if_neg (by omega),first,bind_eq_bind,bind_some,second]
  refine ⟨_,rfl,?_,?_⟩
  · simp only [length_append,length_replicate,length_drop,copied]
    omega
  · rw [append_assoc,take_left' copied]

theorem expand_to_spec (sound : Sound lst) (allowed : Refused lst allocator new_alloc ∨ Grows lst new_alloc) :
    ∃ after ok, alist_expand_to allocator lst new_alloc = .ok (after,ok) ∧ Sound after ∧
      after.obj_size = lst.obj_size ∧ after.count = lst.count ∧ items after = items lst ∧
      ((ok = false ∧ Refused lst allocator new_alloc) ∨
        (ok = true ∧ after.alloc = new_alloc%2^16 ∧ ¬ Refused lst allocator new_alloc)) := by
  rw [alist_expand_to]
  by_cases dead : lst.fail = true
  · rw [if_pos dead]
    exact ⟨lst,false,rfl,sound,rfl,rfl,rfl,Or.inl ⟨rfl,Or.inl dead⟩⟩
  rw [if_neg dead]
  cases given : allocator.block (lst.obj_size*new_alloc%2^32) with
  | none =>
    exact ⟨_,false,rfl,⟨sound.obj_size,sound.alloc,sound.count,sound.allocated⟩,rfl,rfl,rfl,
      Or.inl ⟨rfl,Or.inr given⟩⟩
  | some new_data =>
    have grows : Grows lst new_alloc := by
      rcases allowed with (failed | nothing) | grows
      · exact absurd failed dead
      · rw [given] at nothing
        cases nothing
      · exact grows
    obtain ⟨data,moved,size,same⟩ := expanded_spec sound grows (allocator.sized _ _ given)
    have counted := grows.counted
    have small := sound.obj_size
    refine ⟨{ lst with alloc := new_alloc%2^16, data := some data },true,?_,
      ⟨small,Nat.mod_lt _ (by norm_num),counted.1,?_⟩,rfl,rfl,?_,Or.inr ⟨rfl,rfl,?_⟩⟩
    · dsimp only
      rw [moved]
    · dsimp only [getD_some]
      rw [size]
      exact counted.2
    · rw [items,items]
      refine map_congr_left fun i member => ?_
      rw [mem_range] at member
      refine object_same (k := lst.obj_size*lst.alloc) ?_ same
      calc i*lst.obj_size+lst.obj_size = (i+1)*lst.obj_size := by rw [Nat.succ_mul]
        _ ≤ lst.alloc*lst.obj_size := Nat.mul_le_mul_right _ (member.trans_le sound.count)
        _ = lst.obj_size*lst.alloc := mul_comm _ _
    · rw [Refused,given]
      rintro (failed | nothing)
      · exact dead failed
      · cases nothing
end

/-! ## The calls -/

/-- A number is the first that is large enough when a number of 32 bits is doubled again and again. -/
def Doubled (first min_alloc n : ℕ) : Prop :=
  ∃ k, n = first*2^k%2^32 ∧ min_alloc ≤ n ∧ ∀ j < k, first*2^j%2^32 < min_alloc

theorem doubled_found {first min_alloc n : ℕ} (word : first < 2^32) (doubled : Doubled first min_alloc n) :
    ∃ rounds, double_until min_alloc rounds first = some n := by
  obtain ⟨k,rfl,enough,below⟩ := doubled
  refine ⟨k+1,?_⟩
  induction k generalizing first with
  | zero =>
    rw [pow_zero,mul_one,Nat.mod_eq_of_lt word] at enough ⊢
    rw [double_until,if_neg (not_lt.mpr enough)]
  | succ k ih =>
    have once : ∀ j, first*2%2^32*2^j%2^32 = first*2^(j+1)%2^32 := by
      intro j
      rw [Nat.mod_mul_mod,mul_assoc,← Nat.pow_succ']
    have less := below 0 (Nat.succ_pos k)
    rw [pow_zero,mul_one,Nat.mod_eq_of_lt word] at less
    rw [double_until,if_pos less,← once k]
    refine ih (Nat.mod_lt _ (by norm_num)) ?_ fun j smaller => ?_
    · rwa [once]
    · rw [once]
      exact below (j+1) (Nat.succ_lt_succ smaller)

/-- An index can be addressed: it is inside what is allocated, or the doubling ends with a
    size that is refused or is one of 16 bits that has the index. -/
def Reaches (lst : Alist) (allocator : Allocator) (index : ℕ) : Prop :=
  index < lst.alloc ∨ ∃ n, Doubled (first_alloc lst) ((index+1)%2^32) n ∧
    (Refused lst allocator n ∨ index < n ∧ n < 2^16)

section
variable {lst : Alist} {allocator : Allocator} {index : ℕ}

theorem doubled_grows (sound : Sound lst) {n rounds : ℕ} (outside : lst.alloc ≤ index) (inside : index < n) (small : n < 2^16)
    (done : double_until ((index+1)%2^32) rounds (first_alloc lst) = some n) : Grows lst n := by
  have counted := sound.count
  have obj_size := sound.obj_size
  rw [Nat.mod_eq_of_lt (by omega)] at done
  obtain ⟨_,_,twice⟩ := double_until_small (by omega) done
  have half : 2*lst.alloc ≤ n := by
    by_cases nothing : lst.alloc = 0
    · omega
    · rw [first_alloc,if_neg nothing] at twice
      exact twice (by omega)
  have few : lst.obj_size*lst.alloc ≤ (2^16-1)*(2^15-1) := Nat.mul_le_mul (by omega) (by omega)
  have product : lst.obj_size*n ≤ (2^16-1)*(2^16-1) := Nat.mul_le_mul (by omega) (by omega)
  have word : lst.obj_size*n%2^32 = lst.obj_size*n := Nat.mod_eq_of_lt (by omega)
  rw [show ((2^16-1)*(2^15-1) : ℕ) = 2147385345 by norm_num] at few
  refine ⟨⟨by omega,?_⟩,by rw [Nat.mod_eq_of_lt small]; omega,?_⟩
  · rw [word]
    exact Nat.mul_le_mul_left _ (by omega)
  · rw [word,Nat.mod_eq_of_lt small,mul_comm]

/-- What `alist_ensure_ptr` does once there is room. -/
def addressed (room : Alist) (index : ℕ) : Alist × Option ℕ :=
  (if room.count ≤ (index+1)%2^32 then { room with count := (index+1)%2^32%2^16 } else room,
    some (index*room.obj_size%2^32))

theorem ensure_inside (inside : index < lst.alloc) (rounds : ℕ) :
    alist_ensure_ptr rounds allocator lst index = .ok (addressed lst index) := by
  rw [alist_ensure_ptr,if_neg (not_le.mpr inside)]
  rfl

theorem ensure_outside {rounds : ℕ} (outside : lst.alloc ≤ index) {room : Alist} {ok : Bool}
    (grown : alist_expand_min rounds allocator lst ((index+1)%2^32) = .ok (room,ok)) :
    alist_ensure_ptr rounds allocator lst index = .ok (if ok then addressed room index else (room,none)) := by
  rw [alist_ensure_ptr,if_pos outside,grown]
  cases ok with
  | false => rfl
  | true => rfl

theorem addressed_spec (sound : Sound lst) (inside : index < lst.alloc) :
    ∃ after, addressed lst index = (after,some (index*lst.obj_size)) ∧ Sound after ∧ after.data = lst.data ∧
      after.obj_size = lst.obj_size ∧ after.alloc = lst.alloc ∧ after.count = max lst.count (index+1) := by
  have obj_size := sound.obj_size
  have alloc := sound.alloc
  have product : index*lst.obj_size ≤ (2^16-1)*(2^16-1) := Nat.mul_le_mul (by omega) (by omega)
  rw [addressed,Nat.mod_eq_of_lt (by omega : index*lst.obj_size < 2^32)]
  by_cases more : lst.count ≤ (index+1)%2^32
  · rw [if_pos more]
    refine ⟨_,rfl,⟨obj_size,alloc,?_,sound.allocated⟩,rfl,rfl,rfl,?_⟩
    · dsimp only
      omega
    · dsimp only
      omega
  · rw [if_neg more]
    exact ⟨_,rfl,sound,rfl,rfl,rfl,by omega⟩

theorem ensure_spec (sound : Sound lst) (reaches : Reaches lst allocator index) (rounds : ℕ) :
    ∃ after ptr, alist_ensure_ptr (rounds+33) allocator lst index = .ok (after,ptr) ∧ Sound after ∧
      after.obj_size = lst.obj_size ∧
      ((ptr = none ∧ (∃ n, Refused lst allocator n) ∧ items after = items lst) ∨
        (ptr = some (index*lst.obj_size) ∧ index < after.alloc ∧ after.count = max lst.count (index+1) ∧
          ∀ i < lst.count, object (after.data.getD []) lst.obj_size i = object (lst.data.getD []) lst.obj_size i)) := by
  by_cases inside : index < lst.alloc
  · obtain ⟨after,here,sound_after,data,size,alloc,count⟩ := addressed_spec sound inside
    rw [ensure_inside inside,here]
    exact ⟨after,_,rfl,sound_after,size,Or.inr ⟨rfl,alloc ▸ inside,count,fun i _ => by rw [data]⟩⟩
  obtain less | ⟨n,done,enough⟩ := reaches
  · exact absurd less inside
  have outside : lst.alloc ≤ index := Nat.le_of_not_lt inside
  have word : first_alloc lst < 2^32 := by
    have alloc := sound.alloc
    rw [first_alloc,ALIST_INITIAL_SIZE]
    split <;> omega
  have found := double_until_returns word (doubled_found word done) rounds
  have allowed : Refused lst allocator n ∨ Grows lst n := by
    rcases enough with refused | ⟨fits,small⟩
    · exact Or.inl refused
    · exact Or.inr (doubled_grows sound outside fits small found)
  obtain ⟨room,ok,grown,sound_room,size,count,same,outcome⟩ := expand_to_spec sound allowed
  have expanded : alist_expand_min (rounds+33) allocator lst ((index+1)%2^32) = .ok (room,ok) := by
    rw [alist_expand_min,found]
    exact grown
  rw [ensure_outside outside expanded]
  rcases outcome with ⟨rfl,failed⟩ | ⟨rfl,alloc,given⟩
  · exact ⟨room,none,rfl,sound_room,size,Or.inl ⟨rfl,⟨n,failed⟩,same⟩⟩
  have fits : index < room.alloc := by
    obtain ⟨fits,small⟩ := enough.resolve_left given
    rwa [alloc,Nat.mod_eq_of_lt small]
  obtain ⟨after,here,sound_after,data,size_after,alloc_after,count_after⟩ := addressed_spec sound_room fits
  refine ⟨after,_,?_,sound_after,size_after.trans size,Or.inr ⟨rfl,alloc_after ▸ fits,?_,fun i within => ?_⟩⟩
  · rw [if_pos rfl,here,size]
  · rw [count_after,count]
  · rw [data]
    exact items_object size count same within

theorem fill_spec (sound : Sound lst) (inside : index < lst.alloc) {obj : Object} (whole : lst.obj_size ≤ obj.length) :
    ∃ after, fill lst (index*lst.obj_size) obj = .ok after ∧ Sound after ∧ after.obj_size = lst.obj_size ∧
      after.count = lst.count ∧ object (after.data.getD []) lst.obj_size index = obj.take lst.obj_size ∧
      ∀ i, i ≠ index → object (after.data.getD []) lst.obj_size i = object (lst.data.getD []) lst.obj_size i := by
  have size : (obj.take lst.obj_size).length = lst.obj_size := by
    rw [length_take]
    exact min_eq_left whole
  have room : index*lst.obj_size+lst.obj_size ≤ (lst.data.getD []).length := by
    calc index*lst.obj_size+lst.obj_size = (index+1)*lst.obj_size := by rw [Nat.succ_mul]
      _ ≤ lst.alloc*lst.obj_size := Nat.mul_le_mul_right _ inside
      _ ≤ (lst.data.getD []).length := sound.allocated
  cases written : write (lst.data.getD []) (index*lst.obj_size) (obj.take lst.obj_size) with
  | none =>
    rw [write,size,if_pos room] at written
    cases written
  | some data =>
    rw [fill,written]
    refine ⟨{ lst with data := some data },rfl,⟨sound.obj_size,sound.alloc,sound.count,?_⟩,rfl,rfl,
      write_here written size,fun i other => write_elsewhere written size other⟩
    rw [getD_some,write_length written size]
    exact sound.allocated
end

section
variable {keep : Object → Bool} {size : ℕ}

theorem filter_in_place (left pos to_ : ℕ) (data : List UInt8) (fits : (pos+left)*size ≤ data.length) (passed : to_ ≤ pos) :
    ∃ data' to', filter_loop keep size left pos to_ data = some (data',to') ∧ data'.length = data.length ∧ to' ≤ pos+left ∧
      (List.range to').map (object data' size) =
        (List.range to_).map (object data size) ++ ((range' pos left).map (object data size)).filter keep := by
  induction left generalizing pos to_ data with
  | zero =>
    refine ⟨data,to_,rfl,rfl,passed,?_⟩
    rw [range'_zero,map_nil,filter_nil,append_nil]
  | succ left ih =>
    have room : pos*size+size ≤ data.length := by
      calc pos*size+size = (pos+1)*size := by rw [Nat.succ_mul]
        _ ≤ (pos+(left+1))*size := Nat.mul_le_mul_right _ (by omega)
        _ ≤ data.length := fits
    have behind : (pos+1+left)*size ≤ data.length := by rwa [add_right_comm]
    rw [filter_loop,if_neg (not_lt.mpr room),range'_succ,map_cons]
    cases kept : keep (object data size pos) with
    | false =>
      obtain ⟨data',to',run,length,few,moved⟩ := ih (pos+1) to_ data behind (by omega)
      rw [if_neg Bool.false_ne_true,run]
      refine ⟨data',to',rfl,length,by omega,?_⟩
      rw [moved,filter_cons_of_neg (by rw [kept]; exact Bool.false_ne_true)]
    | true =>
      have whole := object_length room
      have target : to_*size+size ≤ data.length := (Nat.add_le_add_right (Nat.mul_le_mul_right size passed) size).trans room
      cases written : write data (to_*size) (object data size pos) with
      | none =>
        rw [write,whole,if_pos target] at written
        cases written
      | some data₁ =>
        have same_length := write_length written whole
        obtain ⟨data',to',run,length,few,moved⟩ := ih (pos+1) (to_+1) data₁ (by rwa [same_length]) (by omega)
        have front : (List.range to_).map (object data₁ size) = (List.range to_).map (object data size) := by
          refine map_congr_left fun i member => write_elsewhere written whole ?_
          rw [mem_range] at member
          omega
        have to_come : (range' (pos+1) left).map (object data₁ size) = (range' (pos+1) left).map (object data size) := by
          refine map_congr_left fun i member => write_elsewhere written whole ?_
          rw [mem_range'_1] at member
          omega
        rw [if_pos rfl,bind_eq_bind,bind_some,run]
        refine ⟨data',to',rfl,length.trans same_length,by omega,?_⟩
        rw [moved,range_succ,map_append,front,to_come,map_singleton,write_here written whole,
          filter_cons_of_pos kept,append_assoc,singleton_append]
end

theorem get_spec {lst : Alist} (sound : Sound lst) (index : ℕ) :
    alist_get_ptr lst index = if index < lst.count then some (index*lst.obj_size) else none := by
  have obj_size := sound.obj_size
  have alloc := sound.alloc
  have counted := sound.count
  rw [alist_get_ptr]
  by_cases inside : index < lst.count
  · have product : index*lst.obj_size ≤ (2^16-1)*(2^16-1) := Nat.mul_le_mul (by omega) (by omega)
    rw [if_neg (not_le.mpr inside),if_pos inside,Nat.mod_eq_of_lt (by omega)]
  · rw [if_pos (Nat.le_of_not_lt inside),if_neg inside]

theorem update_end_spec {lst : Alist} {to_ : ℕ} (some_size : lst.obj_size ≠ 0 ∨ lst.count = 0) (small : to_ < 2^16)
    (few : to_ ≤ lst.count) : alist_update_end lst (to_*lst.obj_size) = .ok { lst with count := to_ } := by
  rw [alist_update_end]
  by_cases nothing : lst.count = 0
  · have none_left : to_ = 0 := by omega
    rw [if_pos nothing,none_left]
  · have positive : lst.obj_size ≠ 0 := some_size.resolve_right nothing
    have index : to_*lst.obj_size/lst.obj_size%2^32 = to_ := by
      rw [Nat.mul_div_cancel _ (Nat.pos_of_ne_zero positive)]
      omega
    rw [if_neg nothing,if_neg positive,index]
    dsimp only
    rw [if_neg (by omega),Nat.mod_eq_of_lt small]

theorem filter_spec {lst : Alist} (sound : Sound lst) (keep : Object → Bool) (some_size : lst.obj_size ≠ 0 ∨ lst.count = 0) :
    ∃ after, alist_filter lst keep = .ok after ∧ Sound after ∧ after.obj_size = lst.obj_size ∧
      items after = (items lst).filter keep := by
  have small := sound.alloc
  have counted := sound.count
  have passes : (if lst.obj_size = 0 then 0 else lst.count) = lst.count := by
    split
    · next nothing => exact (some_size.resolve_left fun positive => positive nothing).symm
    · rfl
  have fits : (0+lst.count)*lst.obj_size ≤ (lst.data.getD []).length := by
    rw [zero_add]
    exact (Nat.mul_le_mul_right _ counted).trans sound.allocated
  obtain ⟨data,to_,run,length,few,moved⟩ := @filter_in_place keep lst.obj_size lst.count 0 0 (lst.data.getD []) fits le_rfl
  rw [zero_add] at few
  have there : (lst.data.map fun _ => data).getD [] = data := by
    cases block : lst.data with
    | none =>
      rw [block] at length
      exact (eq_nil_of_length_eq_zero length).symm
    | some _ => rfl
  have ended := @update_end_spec { lst with data := lst.data.map fun _ => data } to_ some_size (by omega) few
  refine ⟨{ lst with data := lst.data.map fun _ => data, count := to_ },?_,
    ⟨sound.obj_size,small,few.trans counted,?_⟩,rfl,?_⟩
  · rw [alist_filter,passes,run]
    exact ended
  · rw [there,length]
    exact sound.allocated
  · rw [items,there,moved,range_zero,map_nil,nil_append,← range_eq_range',items]

/-! ## Sequences of objects -/

/-- What a call asks of the list and the allocator, and of the object that its caller has. -/
def Allowed (lst : Alist) (call : Op × Allocator) : Prop :=
  match call.1 with
  | .add obj => lst.obj_size ≤ obj.length ∧ Reaches lst call.2 lst.count
  | .ensure index obj => (∀ o ∈ obj, lst.obj_size ≤ o.length) ∧ Reaches lst call.2 index
  | .expand_by inc_by =>
    Refused lst call.2 ((lst.alloc+inc_by)%2^32) ∨ Grows lst ((lst.alloc+inc_by)%2^32)
  | .filter _ => lst.obj_size ≠ 0 ∨ lst.count = 0
  | .get _ => True
  | .empty => True

/-- What a call does to a sequence of objects of a size when it is not refused memory. -/
def Serves (size : ℕ) (before : List Object) (ret : Ret) (after : List Object) : Op → Prop
  | .add obj => ret = .ptr (some (before.length*size)) ∧ after = before ++ [obj.take size]
  | .ensure index obj => ret = .ptr (some (index*size)) ∧ after.length = max before.length (index+1) ∧
      (∀ i < before.length, (i = index → obj = none) → after[i]? = before[i]?) ∧
      ∀ o ∈ obj, after[index]? = some (o.take size)
  | .get index => ret = .ptr (if index < before.length then some (index*size) else none) ∧ after = before
  | .expand_by _ => ret = .ok true ∧ after = before
  | .empty => after = []
  | .filter keep => after = before.filter keep

/-- A call that is refused memory gives no pointer, or false. -/
def Fails (ret : Ret) : Op → Prop
  | .add _ => ret = .ptr none
  | .ensure _ _ => ret = .ptr none
  | .expand_by _ => ret = .ok false
  | .get _ => False
  | .empty => False
  | .filter _ => False

/-- A call keeps the numbers right, and does what it says to the sequence, or fails and
    leaves it as it is. -/
structure Performs (lst : Alist) (call : Op × Allocator) (after : Alist) (ret : Ret) : Prop where
  sound : Sound after
  size : after.obj_size = lst.obj_size
  sequence : Serves lst.obj_size (items lst) ret (items after) call.1 ∨
    (Fails ret call.1 ∧ (∃ n, Refused lst call.2 n) ∧ items after = items lst)

section
variable {lst : Alist} {allocator : Allocator}

theorem add_performs (sound : Sound lst) {obj : Object} (rounds : ℕ) (allowed : Allowed lst (.add obj,allocator)) :
    ∃ after ret, step (rounds+33) lst (.add obj,allocator) = .ok (after,ret) ∧
      Performs lst (.add obj,allocator) after ret := by
  obtain ⟨whole,reaches⟩ := allowed
  obtain ⟨room,ptr,ensured,sound_room,size,outcome⟩ := ensure_spec sound reaches rounds
  rw [step]
  dsimp only
  rw [alist_add_ptr,ensured]
  rcases outcome with ⟨rfl,refused,same⟩ | ⟨rfl,inside,count,kept⟩
  · exact ⟨room,_,rfl,sound_room,size,Or.inr ⟨rfl,refused,same⟩⟩
  obtain ⟨after,filled,sound_after,size_after,count_after,here,elsewhere⟩ := fill_spec sound_room inside (size ▸ whole)
  rw [size] at filled here elsewhere
  dsimp only [bind,Except.bind]
  rw [filled]
  refine ⟨after,_,rfl,sound_after,size_after.trans size,Or.inl ⟨by rw [items_length],?_⟩⟩
  have more : after.count = lst.count+1 := by omega
  refine ext_getElem? fun i => ?_
  rw [items_get,size_after,size,more]
  rcases Nat.lt_trichotomy i lst.count with old | rfl | beyond
  · rw [if_pos (by omega),getElem?_append_left (by rwa [items_length]),items_get,if_pos old,
      elsewhere i (by omega),kept i old]
  · rw [if_pos (by omega),← items_length lst,getElem?_concat_length,items_length,here]
  · rw [if_neg (by omega),getElem?_eq_none]
    rw [length_append,items_length,length_singleton]
    omega

theorem ensure_performs (sound : Sound lst) {index : ℕ} {obj : Option Object} (rounds : ℕ)
    (allowed : Allowed lst (.ensure index obj,allocator)) :
    ∃ after ret, step (rounds+33) lst (.ensure index obj,allocator) = .ok (after,ret) ∧
      Performs lst (.ensure index obj,allocator) after ret := by
  obtain ⟨whole,reaches⟩ := allowed
  obtain ⟨room,ptr,ensured,sound_room,size,outcome⟩ := ensure_spec sound reaches rounds
  rw [step]
  dsimp only
  rw [ensured]
  rcases outcome with ⟨rfl,refused,same⟩ | ⟨rfl,inside,count,kept⟩
  · exact ⟨room,_,rfl,sound_room,size,Or.inr ⟨rfl,refused,same⟩⟩
  have kept_items : ∀ i < lst.count, (items room)[i]? = (items lst)[i]? := by
    intro i old
    rw [items_get,items_get,if_pos old,if_pos (by omega),size,kept i old]
  cases obj with
  | none =>
    refine ⟨room,_,rfl,sound_room,size,Or.inl ⟨rfl,?_,fun i old _ => ?_,fun o member => by cases member⟩⟩
    · rw [items_length,items_length,count]
    · rw [items_length] at old
      exact kept_items i old
  | some obj =>
    obtain ⟨after,filled,sound_after,size_after,count_after,here,elsewhere⟩ :=
      fill_spec sound_room inside (size ▸ whole obj rfl)
    rw [size] at filled here elsewhere
    dsimp only [bind,Except.bind]
    rw [filled]
    refine ⟨after,_,rfl,sound_after,size_after.trans size,Or.inl ⟨rfl,?_,fun i old other => ?_,?_⟩⟩
    · rw [items_length,items_length,count_after,count]
    · rw [items_length] at old
      have apart : i ≠ index := fun same => some_ne_none _ (other same)
      rw [← kept_items i old,items_get,items_get,count_after,size_after,size,elsewhere i apart]
    · rintro o ⟨⟩
      rw [items_get,count_after,if_pos (by omega),size_after,size,here]

theorem step_performs (sound : Sound lst) (op : Op) (rounds : ℕ) (allowed : Allowed lst (op,allocator)) :
    ∃ after ret, step (rounds+33) lst (op,allocator) = .ok (after,ret) ∧ Performs lst (op,allocator) after ret := by
  cases op with
  | add obj => exact add_performs sound rounds allowed
  | ensure index obj => exact ensure_performs sound rounds allowed
  | get index =>
    refine ⟨lst,_,rfl,sound,rfl,Or.inl ⟨?_,rfl⟩⟩
    rw [get_spec sound,items_length]
  | expand_by inc_by =>
    obtain ⟨after,ok,expanded,sound_after,size,count,same,outcome⟩ := expand_to_spec sound allowed
    rw [step]
    dsimp only
    rw [alist_expand_by,expanded]
    rcases outcome with ⟨rfl,refused⟩ | ⟨rfl,_,_⟩
    · exact ⟨after,_,rfl,sound_after,size,Or.inr ⟨rfl,⟨_,refused⟩,same⟩⟩
    · exact ⟨after,_,rfl,sound_after,size,Or.inl ⟨rfl,same⟩⟩
  | empty => exact ⟨alist_empty lst,_,rfl,⟨sound.obj_size,sound.alloc,Nat.zero_le _,sound.allocated⟩,rfl,Or.inl rfl⟩
  | filter keep =>
    obtain ⟨after,filtered,sound_after,size,same⟩ := filter_spec sound keep allowed
    rw [step]
    dsimp only
    rw [filtered]
    exact ⟨after,_,rfl,sound_after,size,Or.inl same⟩
end

theorem init_sound (allocator : Allocator) {obj_size start_size : ℕ} (small : obj_size < 2^16) {lst : Alist} {ok : Bool}
    (init : alist_init allocator obj_size start_size = (lst,ok)) :
    Sound lst ∧ items lst = [] ∧ (if ok then lst.obj_size = obj_size else lst.fail = true) := by
  rw [alist_init] at init
  by_cases some_room : start_size ≠ 0
  · rw [if_pos some_room] at init
    cases given : allocator.block (obj_size*start_size) with
    | none =>
      rw [given] at init
      cases init
      exact ⟨⟨by norm_num,by norm_num,le_rfl,by norm_num⟩,rfl,rfl⟩
    | some data =>
      rw [given] at init
      cases init
      refine ⟨⟨Nat.mod_lt _ (by norm_num),Nat.mod_lt _ (by norm_num),Nat.zero_le _,?_⟩,rfl,Nat.mod_eq_of_lt small⟩
      rw [getD_some,length_replicate,allocator.sized _ _ given,Nat.mod_eq_of_lt small,mul_comm]
      exact Nat.mul_le_mul_left _ (Nat.mod_le _ _)
  · rw [if_neg some_room] at init
    cases init
    exact ⟨⟨Nat.mod_lt _ (by norm_num),by norm_num,le_rfl,by norm_num⟩,rfl,Nat.mod_eq_of_lt small⟩

/-- Each call is allowed in the list that the calls before it leave. -/
def AllAllowed (rounds : ℕ) : Alist → List (Op × Allocator) → Prop
  | _, [] => True
  | lst, call :: behind => Allowed lst call ∧
      ∀ after ret, step rounds lst call = .ok (after,ret) → AllAllowed rounds after behind

theorem steps_perform {lst : Alist} (sound : Sound lst) (rounds : ℕ) (calls : List (Op × Allocator)) (last : Op × Allocator)
    (allowed : AllAllowed (rounds+33) lst (calls ++ [last])) :
    ∃ reached after ret, steps (rounds+33) lst calls = .ok reached ∧ Sound reached ∧ reached.obj_size = lst.obj_size ∧
      step (rounds+33) reached last = .ok (after,ret) ∧ Performs reached last after ret := by
  induction calls generalizing lst with
  | nil =>
    obtain ⟨after,ret,returned,performs⟩ := step_performs sound last.1 rounds allowed.1
    exact ⟨lst,after,ret,rfl,sound,rfl,returned,performs⟩
  | cons call behind ih =>
    obtain ⟨here,later⟩ := allowed
    obtain ⟨next,ret,returned,performs⟩ := step_performs sound call.1 rounds here
    obtain ⟨reached,after,ret',run,sound_reached,size,last_step⟩ := ih performs.sound (later next ret returned)
    refine ⟨reached,after,ret',?_,sound_reached,size.trans performs.size,last_step⟩
    rw [steps,returned]
    exact run

/-- In any run of allowed calls each call returns, and the list is at each point the
    sequence of objects that the calls make. -/
theorem lists_serve {obj_size start_size : ℕ} (small : obj_size < 2^16) (allocator : Allocator) {lst : Alist} {ok : Bool}
    (init : alist_init allocator obj_size start_size = (lst,ok)) (rounds : ℕ) (calls : List (Op × Allocator))
    (last : Op × Allocator) (allowed : AllAllowed (rounds+33) lst (calls ++ [last])) :
    (Sound lst ∧ items lst = [] ∧ if ok then lst.obj_size = obj_size else lst.fail = true) ∧
      ∃ reached after ret, steps (rounds+33) lst calls = .ok reached ∧ Sound reached ∧ reached.obj_size = lst.obj_size ∧
        step (rounds+33) reached last = .ok (after,ret) ∧ Performs reached last after ret := by
  have start := init_sound allocator small init
  exact ⟨start,steps_perform start.1 rounds calls last allowed⟩

def plenty : Allocator where
  block size := some (List.replicate size 0)
  sized size data given := by
    cases given
    exact List.length_replicate

theorem first_added : step 33 ⟨none,2,0,0,false⟩ (.add [1,2,3],plenty) =
    .ok (⟨some [1,2,0,0,0,0,0,0],2,1,4,false⟩,.ptr (some 0)) := by
  decide +kernel

theorem lists_serve_two : ∃ reached after ret, steps 33 ⟨none,2,0,0,false⟩ [(.add [1,2,3],plenty)] = .ok reached ∧
    step 33 reached (.ensure 1 none,plenty) = .ok (after,ret) ∧ Performs reached (.ensure 1 none,plenty) after ret := by
  have allowed : AllAllowed (0+33) ⟨none,2,0,0,false⟩ ([(.add [1,2,3],plenty)] ++ [(.ensure 1 none,plenty)]) := by
    refine ⟨⟨by simp,Or.inr ⟨4,⟨0,rfl,by simp,by simp⟩,Or.inr ⟨by simp,by simp⟩⟩⟩,fun after ret added => ?_⟩
    rw [Nat.zero_add,first_added] at added
    cases added
    exact ⟨⟨by simp,Or.inl (by simp)⟩,fun _ _ _ => trivial⟩
  obtain ⟨_,reached,after,ret,run,_,_,last,performs⟩ := @lists_serve 2 0 (by simp) plenty _ true rfl 0 _ _ allowed
  exact ⟨reached,after,ret,run,last,performs⟩

/-- With the last index of 16 bits the list grows to 65536 objects, of which the counts
    know none: the object is written, and is not in the list. -/
theorem last_index_lost : ∃ lst after, alist_init plenty 1 0 = (lst,true) ∧
    step 33 lst (.ensure 65535 (some [7]),plenty) = .ok (after,.ptr (some 65535)) ∧ items after = [] ∧
      alist_get_ptr after 65535 = none := by
  have sound : Sound ⟨none,1,0,0,false⟩ := (init_sound plenty (by norm_num : 1 < 2^16) (rfl : alist_init plenty 1 0 = _)).1
  have grows : Grows ⟨none,1,0,0,false⟩ 65536 := ⟨by simp,by simp⟩
  obtain ⟨zeros,given,length⟩ : ∃ zeros, plenty.block (1*65536%2^32) = some zeros ∧ zeros.length = 1*65536%2^32 :=
    ⟨_,rfl,List.length_replicate⟩
  obtain ⟨data,moved,size,_⟩ := expanded_spec sound grows length
  have found : double_until ((65535+1)%2^32) 33 4 = some 65536 := by decide
  have grown : alist_expand_min 33 plenty ⟨none,1,0,0,false⟩ ((65535+1)%2^32) = .ok (⟨some data,1,0,0,false⟩,true) := by
    rw [alist_expand_min,show first_alloc ⟨none,1,0,0,false⟩ = 4 from rfl,found]
    dsimp only
    rw [alist_expand_to,if_neg Bool.false_ne_true]
    dsimp only
    rw [given]
    dsimp only
    rw [moved]
    rfl
  have count : addressed ⟨some data,1,0,0,false⟩ 65535 = (⟨some data,1,0,0,false⟩,some 65535) := rfl
  have ensured := ensure_outside (Nat.zero_le 65535) grown
  rw [if_pos rfl,count] at ensured
  have written : write data 65535 ([7].take 1) = some (data.take 65535 ++ ([7] ++ data.drop 65536)) := by
    rw [write,if_pos (by rw [size]; simp)]
    rfl
  refine ⟨⟨none,1,0,0,false⟩,⟨some (data.take 65535 ++ ([7] ++ data.drop 65536)),1,0,0,false⟩,rfl,?_,rfl,rfl⟩
  rw [step]
  dsimp only
  rw [ensured]
  dsimp only [bind,Except.bind]
  rw [fill,Option.getD_some,written]

end UBoot.AlistGrowth
