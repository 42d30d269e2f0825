import UBoot.OpenAddressing
import UBoot.Runs
import Mathlib.NumberTheory.LucasLehmer

/-!
The environment hash table of `lib/hashtable.c`: creation with the prime test,
the double hashing search that enters, overwrites and finds, and deletion.
Strings are lists of bytes without their terminator, allocations succeed, and
what `change_ok` and the callback of an entry reply to a request is an argument
of the request. The table stands for a finite map (`env_table_refines_map`).
-/
namespace UBoot.Hashtable
open UBoot.OpenAddressing UBoot.Runs Function
open List hiding count

def EPERM : Nat := 1
def ENOENT : Nat := 2
def ESRCH : Nat := 3
def ENOMEM : Nat := 12
def EINVAL : Nat := 22

def USED_FREE : Int := 0
def USED_DELETED : Int := -1

abbrev Str := List UInt8

/-- `struct env_entry_node`. The strings of a slot that is not used are stale. -/
structure Slot where
  used : Int
  key : Str
  data : Str
  deriving DecidableEq, Repr

/-- `struct hsearch_data`; index zero of the table stays free. -/
structure Htab where
  table : List Slot
  size : Nat
  filled : Nat
  deriving DecidableEq, Repr

def Htab.at (htab : Htab) (idx : Nat) : Slot := htab.table.getD idx ⟨USED_FREE,[],[]⟩
def Htab.put (htab : Htab) (idx : Nat) (slot : Slot) : Htab := { htab with table := htab.table.set idx slot }

/-- The codes that `change_ok` and the callback return; zero accepts. -/
structure Replies where
  change_ok : Int
  callback : Int
  deriving DecidableEq, Repr

/-- The divisors from `div` on, for so many of them. -/
def isprime_loop (number : Nat) : Nat → Nat → Bool
  | 0, div => number%div != 0
  | rounds+1, div =>
    if div*div%2^32 < number ∧ number%div ≠ 0 then isprime_loop number rounds (div+2) else number%div != 0

def isprime (number : Nat) : Bool := isprime_loop number number 3

/-- `while (!isprime(nel)) nel += 2`, for so many rounds. -/
def next_prime : Nat → Nat → Option Nat
  | 0, _ => none
  | rounds+1, nel => if isprime nel then some nel else next_prime rounds (nel+2)

def hcreate_r (nel : Nat) : Option Htab :=
  (next_prime (2^31) (nel ||| 1)).map fun size => ⟨List.replicate (size+1) ⟨USED_FREE,[],[]⟩,size,0⟩

inductive Action where
  | ENV_FIND
  | ENV_ENTER
  deriving DecidableEq, Repr

/-- The first hash function, from the last character to the first. -/
def hval (size : Nat) (key : Str) : Nat :=
  let hval := key.foldr (fun c hval => (hval*16+c.toNat)%2^32) (key.length%2^32)
  if hval%size = 0 then 1 else hval%size

def hval2 (size hval : Nat) : Nat := 1+hval%((size+(2^32-2))%2^32)

def Slot.matches (slot : Slot) (key : Str) (hval : Nat) : Bool := slot.used = hval ∧ slot.key = key

/-- Where the search ends: at the key, or at an index together with the first
    deleted index it has met, zero when it has met none. -/
inductive Probe where
  | found (idx : Nat)
  | missing (idx first_deleted : Nat)
  deriving DecidableEq, Repr

def probe_loop (htab : Htab) (key : Str) (hval hval2 : Nat) : Nat → Nat → Nat → Option Probe
  | 0, _, _ => none
  | rounds+1, idx, first_deleted =>
    let idx := back htab.size hval2 idx
    if idx = hval then some (.missing idx first_deleted)
    else
      let first_deleted := if (htab.at idx).used = USED_DELETED ∧ first_deleted = 0 then idx else first_deleted
      if (htab.at idx).matches key hval then some (.found idx)
      else if (htab.at idx).used ≠ USED_FREE then probe_loop htab key hval hval2 rounds idx first_deleted
      else some (.missing idx first_deleted)

def probe (htab : Htab) (key : Str) : Option Probe :=
  let hval := hval htab.size key
  if (htab.at hval).used ≠ USED_FREE then
    let first_deleted := if (htab.at hval).used = USED_DELETED then hval else 0
    if (htab.at hval).matches key hval then some (.found hval)
    else probe_loop htab key hval (hval2 htab.size hval) htab.size hval first_deleted
  else some (.missing hval 0)

/-- What `hsearch_r` returns: its value, the index of the entry that `*retval`
    points to, the error number it sets, and the table. -/
structure Result where
  ret : Nat
  retval : Option Nat
  errno : Option Nat
  htab : Htab
  deriving DecidableEq, Repr

def _hdelete (htab : Htab) (idx : Nat) : Htab :=
  let htab := htab.put idx { htab.at idx with used := USED_DELETED }
  { htab with filled := htab.filled-1 }

/-- `_compare_and_overwrite_entry` at a slot that holds the key. -/
def overwrite_entry (htab : Htab) (data : Str) (action : Action) (replies : Replies) (idx : Nat) : Result :=
  if action = .ENV_ENTER then
    if replies.change_ok ≠ 0 then ⟨0,none,some EPERM,htab⟩
    else if replies.callback ≠ 0 then ⟨0,none,some EINVAL,htab⟩
    else ⟨idx,some idx,none,htab.put idx { htab.at idx with data := data }⟩
  else ⟨idx,some idx,none,htab⟩

def create_entry (htab : Htab) (key data : Str) (replies : Replies) (idx first_deleted : Nat) : Result :=
  if htab.filled = htab.size then ⟨0,none,some ENOMEM,htab⟩
  else
    let idx := if first_deleted ≠ 0 then first_deleted else idx
    let htab := htab.put idx ⟨hval htab.size key,key,data⟩
    let htab := { htab with filled := htab.filled+1 }
    if replies.change_ok ≠ 0 then ⟨0,none,some EPERM,_hdelete htab idx⟩
    else if replies.callback ≠ 0 then ⟨0,none,some EINVAL,_hdelete htab idx⟩
    else ⟨1,some idx,none,htab⟩

def hsearch_r (htab : Htab) (key data : Str) (action : Action) (replies : Replies) : Option Result :=
  match probe htab key with
  | none => none
  | some (.found idx) => some (overwrite_entry htab data action replies idx)
  | some (.missing idx first_deleted) =>
    if action = .ENV_ENTER then some (create_entry htab key data replies idx first_deleted)
    else some ⟨0,none,some ESRCH,htab⟩

def hdelete_r (htab : Htab) (key : Str) (replies : Replies) : Option (Int × Htab) :=
  match hsearch_r htab key [] .ENV_FIND replies with
  | none => none
  | some result =>
    if result.ret = 0 then some (-ENOENT,htab)
    else if replies.change_ok ≠ 0 then some (-EPERM,htab)
    else if replies.callback ≠ 0 then some (-EINVAL,htab)
    else some (0,_hdelete htab result.ret)

section primes
variable {number : Nat} (odd : number%2 = 1) (small : number < 2^31)
include small

variable {div first_deleted i idx j nel rounds : Nat} {s : Session}

theorem square_fits (last : div = 3 ∨ (div-2)*(div-2) < number) : div*div%2^32 = div*div := by
  apply Nat.mod_eq_of_lt
  have bound : div < 46344 := by
    rcases last with rfl | square
    · omega
    · by_contra large
      have : 46342*46342 ≤ (div-2)*(div-2) := Nat.mul_le_mul (by omega) (by omega)
      omega
  have := Nat.mul_lt_mul'' bound bound
  omega

include odd

theorem isprime_loop_sound (start : 3 ≤ div ∧ div%2 = 1)
    (last : div = 3 ∨ (div-2)*(div-2) < number) (enough : number ≤ div+2*rounds)
    (none_yet : ∀ d, 3 ≤ d → d < div → d%2 = 1 → ¬ d ∣ number) (accepted : isprime_loop number rounds div = true) :
    ∃ limit, 3 ≤ limit ∧ number ≤ limit*limit ∧ ∀ d, 3 ≤ d → d ≤ limit → d%2 = 1 → ¬ d ∣ number := by
  -- The divisor at which the loop stops does not divide the number either.
  have stops (div : Nat) (low : 3 ≤ div) (square : number ≤ div*div) (none_yet : ∀ d, 3 ≤ d → d < div → d%2 = 1 → ¬ d ∣ number)
      (accepted : (number%div != 0) = true) :
      ∃ limit, 3 ≤ limit ∧ number ≤ limit*limit ∧ ∀ d, 3 ≤ d → d ≤ limit → d%2 = 1 → ¬ d ∣ number := by
    refine ⟨div,low,square,?_⟩
    intro d low high oddly divides
    rcases Nat.lt_or_eq_of_le high with below | rfl
    · exact none_yet d low below oddly divides
    · simp [Nat.mod_eq_zero_of_dvd divides] at accepted
  induction rounds generalizing div with
  | zero =>
    refine stops div start.1 ?_ none_yet accepted
    have := Nat.mul_le_mul_left div start.1
    omega
  | succ rounds ih =>
    rw [isprime_loop,square_fits small last] at accepted
    by_cases go : div*div < number ∧ number%div ≠ 0
    · rw [if_pos go] at accepted
      refine ih ⟨by omega,by omega⟩ (.inr (by simpa using go.1)) (by omega) ?_ accepted
      intro d low high oddly divides
      by_cases here : d = div
      · subst here
        exact go.2 (Nat.mod_eq_zero_of_dvd divides)
      · exact none_yet d low (by omega) oddly divides
    · rw [if_neg go] at accepted
      refine stops div start.1 ?_ none_yet accepted
      by_contra under
      exact go ⟨by omega,by simpa using accepted⟩

theorem isprime_sound (accepted : isprime number = true) : number = 1 ∨ number.Prime ∧ 5 ≤ number := by
  obtain ⟨limit,reach,square,none_below⟩ := isprime_loop_sound odd small
    (⟨le_refl 3,rfl⟩ : 3 ≤ 3 ∧ 3%2 = 1) (.inl rfl) (by omega) (fun d low high => by omega) accepted
  by_cases one : number = 1
  · exact .inl one
  right
  have prime : number.Prime := by
    by_contra composite
    have factor := Nat.minFac_dvd number
    have squares : number.minFac^2 ≤ number := Nat.minFac_sq_le_self (by omega) composite
    have below : number.minFac ≤ limit := by
      by_contra above
      have := Nat.mul_lt_mul'' (Nat.lt_of_not_le above) (Nat.lt_of_not_le above)
      rw [Nat.pow_two] at squares
      omega
    have oddFactor : number.minFac%2 = 1 := by
      rcases Nat.mod_two_eq_zero_or_one number.minFac with even | oddly
      · have := (Nat.dvd_of_mod_eq_zero even).trans factor
        omega
      · exact oddly
    have two := (Nat.minFac_prime one).two_le
    exact none_below number.minFac (by omega) below oddFactor factor
  refine ⟨prime,?_⟩
  by_contra less
  have three : number = 3 := by
    have := prime.two_le
    omega
  subst three
  exact none_below 3 (by omega) reach (by omega) (dvd_refl 3)

omit odd in
theorem isprime_loop_complete (prime : number.Prime) (five : 5 ≤ number) (start : 3 ≤ div)
    (last : div = 3 ∨ (div-2)*(div-2) < number) : isprime_loop number rounds div = true := by
  have undivided (div : Nat) (start : 3 ≤ div) (last : div = 3 ∨ (div-2)*(div-2) < number) : number%div ≠ 0 := by
    intro divided
    rcases (Nat.dvd_prime prime).mp (Nat.dvd_of_mod_eq_zero divided) with one | same
    · omega
    · rcases last with three | square
      · omega
      · have : 3*(div-2) ≤ (div-2)*(div-2) := Nat.mul_le_mul_right _ (by omega)
        omega
  induction rounds generalizing div with
  | zero => simpa [isprime_loop] using undivided div start last
  | succ rounds ih =>
    rw [isprime_loop,square_fits small last]
    by_cases go : div*div < number ∧ number%div ≠ 0
    · rw [if_pos go]
      exact ih (by omega) (.inr (by simpa using go.1))
    · rw [if_neg go]
      simpa using undivided div start last

end primes

theorem prime_int_max : Nat.Prime 2147483647 := by
  have := lucas_lehmer_sufficiency 31 (by norm_num) (by norm_num)
  simpa [mersenne] using this

theorem next_prime_spec (odd : nel%2 = 1) (below : nel ≤ 2147483647) (enough : 2147483647 < nel+2*rounds) :
    ∃ size, next_prime rounds nel = some size ∧ nel ≤ size ∧ size < 2^31 ∧ (size = 1 ∨ size.Prime ∧ 5 ≤ size) := by
  induction rounds generalizing nel with
  | zero => omega
  | succ rounds ih =>
    rw [next_prime]
    by_cases accepted : isprime nel = true
    · rw [if_pos accepted]
      exact ⟨nel,rfl,le_rfl,by omega,isprime_sound odd (by omega) accepted⟩
    · rw [if_neg accepted]
      have more : nel ≠ 2147483647 := by
        rintro rfl
        exact accepted (isprime_loop_complete (by omega) prime_int_max (by omega) (by omega) (.inl rfl))
      obtain ⟨size,found,above,bound,shape⟩ := ih (by omega : (nel+2)%2 = 1) (by omega) (by omega)
      exact ⟨size,found,by omega,bound,shape⟩

theorem or_one (nel : Nat) : (nel ||| 1)%2 = 1 ∧ (nel ||| 1)/2 = nel/2 := by
  refine ⟨Nat.or_mod_two_eq_one.mpr (.inr rfl),?_⟩
  rw [Nat.or_div_two]
  simp

def Slot.cell (slot : Slot) : Cell Str Str :=
  if slot.used = USED_FREE then .free else if slot.used = USED_DELETED then .deleted else .live slot.key slot.data

def cells (htab : Htab) (i : Nat) : Cell Str Str := (htab.at i).cell

def path (size : Nat) (key : Str) : Nat → Nat := walk size (hval size key) (hval2 size (hval size key))

structure Valid (htab : Htab) : Prop where
  prime : htab.size = 1 ∨ htab.size.Prime ∧ 5 ≤ htab.size
  small : htab.size < 2^31
  length : htab.table.length = htab.size+1
  zero : (htab.at 0).used = USED_FREE
  hashed : ∀ i, (htab.at i).used = USED_FREE ∨ (htab.at i).used = USED_DELETED ∨
    (htab.at i).used = hval htab.size (htab.at i).key
  probed : Probed (path htab.size) (cells htab)
  filled : htab.filled = count htab.size (cells htab)

theorem hval_pos {size : Nat} (some_size : 1 ≤ size) (key : Str) : 1 ≤ hval size key ∧ hval size key ≤ size := by
  rw [hval]
  have := Nat.mod_lt (key.foldr (fun c hval => (hval*16+c.toNat)%2^32) (key.length%2^32)) some_size
  split_ifs <;> omega

@[simp] theorem cell_free {slot : Slot} : slot.cell = .free ↔ slot.used = USED_FREE := by
  rw [Slot.cell]
  split_ifs with free deleted
  · simp [free]
  · simp [free]
  · simp [free]

@[simp] theorem cell_deleted {slot : Slot} : slot.cell = .deleted ↔ slot.used = USED_DELETED := by
  rw [Slot.cell]
  split_ifs with free deleted
  · simp [free,USED_FREE,USED_DELETED]
  · simp [deleted]
  · simp [deleted]

theorem cell_live {slot : Slot} {key data : Str} : slot.cell = .live key data ↔
    slot.used ≠ USED_FREE ∧ slot.used ≠ USED_DELETED ∧ slot.key = key ∧ slot.data = data := by
  rw [Slot.cell]
  split_ifs with free deleted
  · simp [free]
  · simp [deleted]
  · simp [free,deleted]

theorem cell_isLive {slot : Slot} : slot.cell.IsLive ↔ slot.used ≠ USED_FREE ∧ slot.used ≠ USED_DELETED := by
  rw [Slot.cell]
  split_ifs with free deleted
  · simp [free,Cell.IsLive]
  · simp [deleted,Cell.IsLive]
  · simp [free,deleted,Cell.IsLive]

theorem at_put {htab : Htab} (inside : idx < htab.table.length) (slot : Slot) (i : Nat) :
    (htab.put idx slot).at i = if i = idx then slot else htab.at i := by
  rw [Htab.at,Htab.put,Htab.at]
  simp only [getD_eq_getElem?_getD,getElem?_set]
  by_cases same : idx = i
  · subst same
    simp [inside]
  · simp [same,Ne.symm same]

theorem cells_put {htab : Htab} (inside : idx < htab.table.length) (slot : Slot) :
    cells (htab.put idx slot) = Function.update (cells htab) idx slot.cell := by
  funext i
  rw [cells,at_put inside,update_apply]
  split_ifs <;> rfl

section valid
variable {htab : Htab} (valid : Valid htab) (key : Str)
include valid

theorem size_pos : 1 ≤ htab.size := by
  rcases valid.prime with one | ⟨_,five⟩
  · omega
  · omega

/-- A live slot is one that is used. -/
theorem live_iff_used (i : Nat) : (cells htab i).IsLive ↔ 0 < (htab.at i).used := by
  rw [cells,cell_isLive]
  have positive := (hval_pos (size_pos valid) (htab.at i).key).1
  rcases valid.hashed i with free | deleted | used
  · simp [free,USED_FREE]
  · simp [deleted,USED_FREE,USED_DELETED]
  · rw [used]
    simp only [USED_FREE,USED_DELETED]
    omega

theorem matches_iff (i : Nat) : (htab.at i).matches key (hval htab.size key) = true ↔
    cells htab i = .live key (htab.at i).data := by
  rw [cells,cell_live,Slot.matches,decide_eq_true_eq]
  have positive := (hval_pos (size_pos valid) key).1
  constructor
  · rintro ⟨used,same⟩
    rw [used]
    refine ⟨?_,?_,same,rfl⟩
    · simp only [USED_FREE]
      omega
    · simp only [USED_DELETED]
      omega
  · rintro ⟨notFree,notDeleted,same,_⟩
    refine ⟨?_,same⟩
    rcases valid.hashed i with free | deleted | used
    · exact absurd free notFree
    · exact absurd deleted notDeleted
    · rw [used,same]

theorem not_matches (differs : (htab.at i).matches key (hval htab.size key) = false) (data : Str) :
    cells htab i ≠ .live key data := by
  intro live
  have same := (cell_live.mp live).2.2.2
  rw [← same] at live
  rw [(matches_iff valid key i).mpr live] at differs
  cases differs

theorem hval2_stride (large : htab.size ≠ 1) : (1 ≤ hval2 htab.size (hval htab.size key) ∧
    hval2 htab.size (hval htab.size key) < htab.size) ∧
    Nat.Coprime (hval2 htab.size (hval htab.size key)) htab.size := by
  obtain ⟨prime,five⟩ := valid.prime.resolve_left large
  have small := valid.small
  have rest : (htab.size+(2^32-2))%2^32 = htab.size-2 := by omega
  have below := Nat.mod_lt (hval htab.size key) (show 0 < htab.size-2 by omega)
  have short : 1 ≤ hval2 htab.size (hval htab.size key) ∧ hval2 htab.size (hval htab.size key) < htab.size := by
    rw [hval2,rest]
    omega
  exact ⟨short,(Nat.coprime_of_lt_prime (by omega) short.2 prime).symm⟩

theorem path_inside (large : htab.size ≠ 1) (j : Nat) : 1 ≤ path htab.size key j ∧ path htab.size key j ≤ htab.size :=
  walk_inside (hval_pos (size_pos valid) key) (hval2_stride valid key large).1 j

omit valid in
theorem path_single (one : htab.size = 1) (j : Nat) : path htab.size key (j+1) = 0 := by
  have first : hval 1 key = 1 := by
    have := hval_pos (le_refl 1) key
    omega
  have second : hval2 1 1 = 2 := by decide
  rw [path,one,first,second]
  induction j with
  | zero => rfl
  | succ j ih => rw [walk,ih]; rfl

/-- The slots of the path before a position are used, and none holds the key. -/
def Passed (htab : Htab) (key : Str) (j : Nat) : Prop := ∀ m < j, (htab.at (path htab.size key m)).used ≠ USED_FREE ∧
  (htab.at (path htab.size key m)).matches key (hval htab.size key) = false

/-- The first deleted index of the path before a position, or zero. -/
def Marked (htab : Htab) (key : Str) (j first_deleted : Nat) : Prop :=
  if first_deleted = 0 then ∀ m < j, (htab.at (path htab.size key m)).used ≠ USED_DELETED
  else ∃ m < j, first_deleted = path htab.size key m ∧ (htab.at first_deleted).used = USED_DELETED

inductive Ends (htab : Htab) (key : Str) : Probe → Prop
  | found (idx : Nat) (holds : (htab.at idx).matches key (hval htab.size key) = true) : Ends htab key (.found idx)
  | missing (j first_deleted : Nat) (passed : Passed htab key j) (marked : Marked htab key j first_deleted)
      (stops : (htab.at (path htab.size key j)).used = USED_FREE ∨ 0 < j ∧ path htab.size key j = hval htab.size key) :
      Ends htab key (.missing (path htab.size key j) first_deleted)

theorem marked_next (marked : Marked htab key j first_deleted) : Marked htab key (j+1)
    (if (htab.at (path htab.size key j)).used = USED_DELETED ∧ first_deleted = 0 then path htab.size key j
      else first_deleted) := by
  by_cases first : (htab.at (path htab.size key j)).used = USED_DELETED ∧ first_deleted = 0
  · have nonzero : path htab.size key j ≠ 0 := by
      intro zero
      have deleted := first.1
      rw [zero,valid.zero] at deleted
      simp [USED_FREE,USED_DELETED] at deleted
    rw [if_pos first,Marked,if_neg nonzero]
    exact ⟨j,by omega,rfl,first.1⟩
  · rw [if_neg first]
    rw [Marked] at marked ⊢
    by_cases unmarked : first_deleted = 0
    · rw [if_pos unmarked] at marked ⊢
      intro m early
      by_cases last : m = j
      · subst last
        exact fun deleted => first ⟨deleted,unmarked⟩
      · exact marked m (by omega)
    · rw [if_neg unmarked] at marked ⊢
      obtain ⟨m,early,there⟩ := marked
      exact ⟨m,by omega,there⟩

theorem probe_loop_spec (passed : Passed htab key (j+1))
    (marked : Marked htab key (j+1) first_deleted)
    (ends : ∃ n, j < n ∧ n ≤ j+rounds ∧ ((htab.at (path htab.size key n)).used = USED_FREE ∨
      path htab.size key n = hval htab.size key)) :
    ∃ p, probe_loop htab key (hval htab.size key) (hval2 htab.size (hval htab.size key)) rounds
      (path htab.size key j) first_deleted = some p ∧ Ends htab key p := by
  set slots := path htab.size key
  induction rounds generalizing j first_deleted with
  | zero =>
    obtain ⟨n,after,before,_⟩ := ends
    omega
  | succ rounds ih =>
    have next : back htab.size (hval2 htab.size (hval htab.size key)) (slots j) = slots (j+1) := rfl
    rw [probe_loop,next]
    simp only
    by_cases around : slots (j+1) = hval htab.size key
    · rw [if_pos around]
      exact ⟨_,rfl,.missing (j+1) first_deleted passed marked (.inr ⟨by omega,around⟩)⟩
    rw [if_neg around]
    have remarked := marked_next valid key marked
    set mark := if (htab.at (slots (j+1))).used = USED_DELETED ∧ first_deleted = 0
      then slots (j+1) else first_deleted with markIs
    cases holds : (htab.at (slots (j+1))).matches key (hval htab.size key) with
    | true => exact ⟨_,rfl,.found _ holds⟩
    | false =>
      simp only [Bool.false_eq_true,if_false]
      by_cases free : (htab.at (slots (j+1))).used = USED_FREE
      · have same : mark = first_deleted := by
          rw [markIs,if_neg]
          simp [free,USED_FREE,USED_DELETED]
        rw [if_neg (by simpa using free),same]
        exact ⟨_,rfl,.missing (j+1) first_deleted passed marked (.inl free)⟩
      rw [if_pos free]
      have further : Passed htab key (j+1+1) := by
        intro m early
        by_cases last : m = j+1
        · subst last
          exact ⟨free,holds⟩
        · exact passed m (by omega)
      refine ih further remarked ?_
      obtain ⟨n,after,before,stops⟩ := ends
      refine ⟨n,?_,by omega,stops⟩
      by_contra late
      obtain rfl : n = j+1 := by omega
      rcases stops with isFree | isStart
      · exact free isFree
      · exact around isStart

theorem probe_spec : ∃ p, probe htab key = some p ∧ Ends htab key p := by
  have start : path htab.size key 0 = hval htab.size key := rfl
  rw [probe]
  simp only
  by_cases free : (htab.at (hval htab.size key)).used = USED_FREE
  · rw [if_neg (by simpa using free)]
    have ends : Ends htab key (.missing (path htab.size key 0) 0) :=
      .missing 0 0 (fun m early => by omega) (by simp [Marked]) (.inl (by rw [start]; exact free))
    exact ⟨_,rfl,ends⟩
  rw [if_pos free]
  cases holds : (htab.at (hval htab.size key)).matches key (hval htab.size key) with
  | true => exact ⟨_,rfl,.found _ holds⟩
  | false =>
    have passed : Passed htab key 1 := by
      intro m early
      obtain rfl : m = 0 := by omega
      rw [start]
      exact ⟨free,holds⟩
    have marked := marked_next valid key (by simp [Marked] : Marked htab key 0 0)
    rw [start] at marked
    simp only [and_true] at marked
    refine probe_loop_spec valid key passed marked ?_
    -- The search of a single slot goes on to index zero, any other one comes round.
    by_cases one : htab.size = 1
    · refine ⟨1,by omega,by omega,.inl ?_⟩
      rw [path_single key one 0,valid.zero]
    · obtain ⟨short,_⟩ := hval2_stride valid key one
      refine ⟨htab.size,?_,by omega,.inr (walk_returns (hval_pos (size_pos valid) key) short)⟩
      exact size_pos valid

/-- Where a search that misses leaves off: nothing is live with the key, a full
    table has no other slot, and otherwise the key reaches the slot that is
    taken, which is not live. -/
structure Vacant (htab : Htab) (key : Str) (idx : Nat) : Prop where
  inside : 1 ≤ idx ∧ idx ≤ htab.size
  dead : ¬ (cells htab idx).IsLive
  reached : Reached (path htab.size) (cells htab) key idx

theorem live_inside (live : (cells htab i).IsLive) : 1 ≤ i ∧ i ≤ htab.size := by
  rw [cells,cell_isLive] at live
  constructor
  · by_contra zero
    obtain rfl : i = 0 := by omega
    exact live.1 valid.zero
  · by_contra beyond
    refine live.1 ?_
    rw [Htab.at,getD_eq_getElem?_getD,getElem?_eq_none (by rw [valid.length]; omega)]
    rfl

theorem round_covers (later : 0 < j) (around : path htab.size key j = hval htab.size key)
    (inside : 1 ≤ i ∧ i ≤ htab.size) : ∃ m < j, path htab.size key m = i := by
  have large : htab.size ≠ 1 := by
    intro one
    obtain ⟨k,rfl⟩ : ∃ k, j = k+1 := ⟨j-1,by omega⟩
    rw [path_single key one] at around
    have := (hval_pos (size_pos valid) key).1
    omega
  obtain ⟨short,coprime⟩ := hval2_stride valid key large
  have start := hval_pos (size_pos valid) key
  have whole : htab.size ≤ j := by
    by_contra early
    have := walk_injective start short coprime (Nat.zero_le j) (by omega) around.symm
    omega
  obtain ⟨m,early,there⟩ := walk_covers start short coprime inside.1 inside.2
  exact ⟨m,by omega,there⟩

theorem missing_absent (ends : Ends htab key (.missing idx first_deleted)) :
    Absent (cells htab) key := by
  cases ends with
  | missing j _ passed marked stops =>
    rcases stops with free | ⟨later,around⟩
    · exact absent_of_free valid.probed (cell_free.mpr free) (fun m early => not_matches valid key (passed m early).2)
    · intro i data live
      have inside := live_inside valid (by rw [live]; trivial : (cells htab i).IsLive)
      obtain ⟨m,early,rfl⟩ := round_covers valid key later around inside
      exact not_matches valid key (passed m early).2 data live

omit valid in
theorem passed_reached (passed : Passed htab key j) {m : Nat} (early : m ≤ j) :
    Reached (path htab.size) (cells htab) key (path htab.size key m) :=
  ⟨m,rfl,fun k before free => (passed k (by omega)).1 (cell_free.mp free)⟩

theorem missing_vacant (ends : Ends htab key (.missing idx first_deleted))
    (room : htab.filled ≠ htab.size) : Vacant htab key (if first_deleted ≠ 0 then first_deleted else idx) := by
  cases ends with
  | missing j _ passed marked stops =>
    rw [Marked] at marked
    by_cases unmarked : first_deleted = 0
    · rw [if_pos unmarked] at marked
      rw [if_neg (by simpa using unmarked)]
      have live : ∀ m < j, (cells htab (path htab.size key m)).IsLive := fun m early =>
        cell_isLive.mpr ⟨(passed m early).1,marked m early⟩
      rcases stops with free | ⟨later,around⟩
      · refine ⟨?_,?_,passed_reached key passed (le_refl j)⟩
        · by_cases one : htab.size = 1
          · -- In a table of one slot the search has stopped at that slot.
            cases j with
            | zero => exact hval_pos (size_pos valid) key
            | succ k =>
              refine absurd ?_ room
              rw [valid.filled]
              refine count_eq_size.mpr (fun i low high => ?_)
              have first := live 0 (by omega)
              have start := hval_pos (size_pos valid) key
              obtain rfl : i = hval htab.size key := by omega
              exact first
          · exact path_inside valid key one j
        · rw [cells,cell_isLive]
          exact fun both => both.1 free
      · refine absurd ?_ room
        rw [valid.filled]
        refine count_eq_size.mpr (fun i low high => ?_)
        obtain ⟨m,early,rfl⟩ := round_covers valid key later around ⟨low,high⟩
        exact live m early
    · rw [if_neg unmarked] at marked
      rw [if_pos unmarked]
      obtain ⟨m,early,rfl,deleted⟩ := marked
      refine ⟨?_,?_,passed_reached key passed (le_of_lt early)⟩
      · by_cases one : htab.size = 1
        · cases m with
          | zero => exact hval_pos (size_pos valid) key
          | succ k => exact absurd (path_single key one k) unmarked
        · exact path_inside valid key one m
      · rw [cells,cell_isLive]
        exact fun both => both.2 deleted

omit key in
theorem valid_put {idx filled : Nat} {slot : Slot} (inside : 1 ≤ idx ∧ idx ≤ htab.size)
    (hashed : slot.used = USED_DELETED ∨ slot.used = hval htab.size slot.key)
    (probed : Probed (path htab.size) (Function.update (cells htab) idx slot.cell))
    (counted : filled = count htab.size (Function.update (cells htab) idx slot.cell)) :
    Valid { htab.put idx slot with filled := filled } := by
  have within : idx < htab.table.length := by rw [valid.length]; omega
  have same := cells_put within slot
  have slots := at_put within slot
  refine ⟨valid.prime,valid.small,?_,?_,?_,?_,?_⟩
  · simp only [Htab.put,length_set]
    exact valid.length
  · change ((htab.put idx slot).at 0).used = USED_FREE
    rw [slots,if_neg (by omega)]
    exact valid.zero
  · intro i
    change ((htab.put idx slot).at i).used = _ ∨ ((htab.put idx slot).at i).used = _ ∨
      ((htab.put idx slot).at i).used = hval htab.size ((htab.put idx slot).at i).key
    rw [slots]
    split_ifs
    · exact .inr hashed
    · exact valid.hashed i
  · change Probed (path htab.size) (cells (htab.put idx slot))
    rw [same]
    exact probed
  · change filled = count htab.size (cells (htab.put idx slot))
    rw [same]
    exact counted

variable {map : Str → Option Str} (represents : Represents (cells htab) map)
include represents

/-- `ENV_FIND` returns the entry with the data of the key, or fails. -/
theorem hsearch_find (data : Str) (replies : Replies) :
    match map key with
    | some d => ∃ i, (1 ≤ i ∧ i ≤ htab.size) ∧ cells htab i = .live key d ∧
        hsearch_r htab key data .ENV_FIND replies = some ⟨i,some i,none,htab⟩
    | none => hsearch_r htab key data .ENV_FIND replies = some ⟨0,none,some ESRCH,htab⟩ := by
  obtain ⟨p,searched,ends⟩ := probe_spec valid key
  rw [hsearch_r,searched]
  cases p with
  | found idx =>
    cases ends with
    | found _ holds =>
      have live := (matches_iff valid key idx).mp holds
      rw [(represents key _).mp ⟨idx,live⟩]
      exact ⟨idx,live_inside valid (by rw [live]; trivial),live,rfl⟩
  | missing idx first_deleted =>
    rw [(represents_absent represents).mp (missing_absent valid key ends)]
    rfl

structure Entered (htab : Htab) (map : Str → Option Str) (key data : Str) (replies : Replies) (result : Result) :
    Prop where
  valid : Valid result.htab
  size : result.htab.size = htab.size
  accepted : result.ret ≠ 0 → Represents (cells result.htab) (Function.update map key (some data)) ∧
    result.htab.filled ≤ htab.filled+1
  rejected : result.ret = 0 → Represents (cells result.htab) map
  full : result.errno = some ENOMEM → ∀ i, 1 ≤ i → i ≤ htab.size → 0 < (htab.at i).used
  accepts : replies.change_ok = 0 → replies.callback = 0 → htab.filled ≠ htab.size → result.ret ≠ 0

theorem overwrite_entered (data : Str) (replies : Replies) (live : cells htab idx = .live key (htab.at idx).data) :
    Entered htab map key data replies (overwrite_entry htab data .ENV_ENTER replies idx) := by
  have isLive : (cells htab idx).IsLive := by rw [live]; trivial
  have inside := live_inside valid isLive
  have within : idx < htab.table.length := by rw [valid.length]; omega
  obtain ⟨notFree,notDeleted,same,_⟩ := cell_live.mp live
  rw [overwrite_entry,if_pos rfl]
  by_cases refused : replies.change_ok ≠ 0
  · rw [if_pos refused]
    exact ⟨valid,rfl,by simp,fun _ => represents,by simp [ENOMEM,EPERM],fun accepts => absurd accepts refused⟩
  by_cases vetoed : replies.callback ≠ 0
  · rw [if_neg refused,if_pos vetoed]
    exact ⟨valid,rfl,by simp,fun _ => represents,by simp [ENOMEM,EINVAL],fun _ accepts => absurd accepts vetoed⟩
  rw [if_neg refused,if_neg vetoed]
  have new : ({ htab.at idx with data := data } : Slot).cell = .live key data := cell_live.mpr ⟨notFree,notDeleted,same,rfl⟩
  have counted := count_update (cells htab) (.live key data) inside
  rw [if_pos isLive,if_pos (by trivial)] at counted
  refine ⟨?_,rfl,fun _ => ⟨?_,Nat.le_succ _⟩,fun zero => by simp at zero; omega,by simp,fun _ _ _ => by simp; omega⟩
  · refine valid_put valid inside ?_ ?_ ?_
    · exact (valid.hashed idx).resolve_left notFree
    · rw [new]
      exact probed_replace valid.probed live
    · rw [new]
      rw [valid.filled]
      omega
  · rw [cells_put within,new]
    exact represents_replace represents valid.probed live

omit represents in
theorem hdelete_valid (live : (cells htab idx).IsLive) :
    Valid (_hdelete htab idx) ∧ cells (_hdelete htab idx) = Function.update (cells htab) idx .deleted := by
  have inside := live_inside valid live
  have within : idx < htab.table.length := by rw [valid.length]; omega
  have new : ({ htab.at idx with used := USED_DELETED } : Slot).cell = .deleted := cell_deleted.mpr rfl
  have counted := count_update (cells htab) .deleted inside
  rw [if_pos live,if_neg (by simp [Cell.IsLive])] at counted
  constructor
  · refine valid_put valid inside (.inl rfl) ?_ ?_
    · rw [new]
      exact probed_delete valid.probed idx
    · rw [new]
      change htab.filled-1 = _
      rw [valid.filled]
      omega
  · rw [← new]
    exact cells_put within _

theorem create_entered (data : Str) (replies : Replies) (absent : Absent (cells htab) key)
    (vacant : htab.filled ≠ htab.size → Vacant htab key (if first_deleted ≠ 0 then first_deleted else idx)) :
    Entered htab map key data replies (create_entry htab key data replies idx first_deleted) := by
  rw [create_entry]
  by_cases full : htab.filled = htab.size
  · rw [if_pos full]
    refine ⟨valid,rfl,by simp,fun _ => represents,?_,fun _ _ room => absurd full room⟩
    intro _ i low high
    rw [valid.filled] at full
    exact (live_iff_used valid i).mp (count_eq_size.mp full i low high)
  rw [if_neg full]
  obtain ⟨inside,dead,reached⟩ := vacant full
  simp only
  generalize (if first_deleted ≠ 0 then first_deleted else idx) = target at inside dead reached ⊢
  have within : target < htab.table.length := by rw [valid.length]; omega
  have positive := (hval_pos (size_pos valid) key).1
  have new : (⟨hval htab.size key,key,data⟩ : Slot).cell = .live key data := by
    refine cell_live.mpr ⟨?_,?_,rfl,rfl⟩
    · simp only [USED_FREE]
      omega
    · simp only [USED_DELETED]
      omega
  have counted := count_update (cells htab) (.live key data) inside
  rw [if_neg dead,if_pos (by trivial)] at counted
  set after : Htab := { htab.put target ⟨hval htab.size key,key,data⟩ with filled := htab.filled+1 } with afterIs
  have content : cells after = Function.update (cells htab) target (.live key data) := by
    rw [← new]
    exact cells_put within _
  have afterValid : Valid after := by
    refine valid_put valid inside (.inr rfl) ?_ ?_
    · rw [new]
      exact probed_enter valid.probed reached absent
    · rw [new,valid.filled]
      omega
  have live : (cells after target).IsLive := by
    rw [content,update_self]
    trivial
  -- A refusal deletes the new entry again.
  obtain ⟨undoneValid,undone⟩ := hdelete_valid afterValid live
  rw [content,update_idem] at undone
  have unchanged : Represents (cells (_hdelete after target)) map := by
    rw [undone]
    exact represents_mark represents dead
  by_cases refused : replies.change_ok ≠ 0
  · rw [if_pos refused]
    exact ⟨undoneValid,rfl,by simp,fun _ => unchanged,by simp [ENOMEM,EPERM],fun accepts => absurd accepts refused⟩
  by_cases vetoed : replies.callback ≠ 0
  · rw [if_neg refused,if_pos vetoed]
    exact ⟨undoneValid,rfl,by simp,fun _ => unchanged,by simp [ENOMEM,EINVAL],fun _ accepts => absurd accepts vetoed⟩
  · rw [if_neg refused,if_neg vetoed]
    refine ⟨afterValid,rfl,fun _ => ⟨?_,le_rfl⟩,by simp,by simp,by simp⟩
    change Represents (cells after) _
    rw [content]
    exact represents_enter represents dead absent

/-- Every `ENV_ENTER` returns. -/
theorem hsearch_enter (data : Str) (replies : Replies) :
    ∃ result, hsearch_r htab key data .ENV_ENTER replies = some result ∧ Entered htab map key data replies result := by
  obtain ⟨p,searched,ends⟩ := probe_spec valid key
  rw [hsearch_r,searched]
  cases p with
  | found idx =>
    cases ends with
    | found _ holds =>
      exact ⟨_,rfl,overwrite_entered valid key represents data replies ((matches_iff valid key idx).mp holds)⟩
  | missing idx first_deleted =>
    exact ⟨_,rfl,create_entered valid key represents data replies (missing_absent valid key ends)
      (missing_vacant valid key ends)⟩

/-- Every deletion returns, and is accepted or changes nothing. -/
theorem hdelete_spec (replies : Replies) : ∃ ret after, hdelete_r htab key replies = some (ret,after) ∧ Valid after ∧
    after.size = htab.size ∧ (ret = 0 → Represents (cells after) (Function.update map key none)) ∧
    (ret ≠ 0 → after = htab) := by
  have found := hsearch_find valid key represents [] replies
  rw [hdelete_r]
  cases mapped : map key with
  | none =>
    rw [mapped] at found
    rw [found]
    refine ⟨-ENOENT,htab,by simp,valid,rfl,?_,fun _ => rfl⟩
    simp [ENOENT]
  | some d =>
    rw [mapped] at found
    obtain ⟨i,inside,live,searched⟩ := found
    rw [searched]
    simp only
    rw [if_neg (by omega)]
    by_cases refused : replies.change_ok ≠ 0
    · rw [if_pos refused]
      exact ⟨_,_,rfl,valid,rfl,by simp [EPERM],fun _ => rfl⟩
    by_cases vetoed : replies.callback ≠ 0
    · rw [if_neg refused,if_pos vetoed]
      exact ⟨_,_,rfl,valid,rfl,by simp [EINVAL],fun _ => rfl⟩
    · rw [if_neg refused,if_neg vetoed]
      obtain ⟨deletedValid,content⟩ := hdelete_valid valid (by rw [live]; trivial : (cells htab i).IsLive)
      refine ⟨0,_,rfl,deletedValid,rfl,fun _ => ?_,by simp⟩
      rw [content]
      exact represents_delete represents valid.probed live

end valid

/-- Every table that is created is empty, and as large as was asked for. -/
theorem hcreate_spec (small : nel < 2^31) : ∃ htab, hcreate_r nel = some htab ∧ Valid htab ∧
    Represents (cells htab) (fun _ => none) ∧ htab.filled = 0 ∧ nel ≤ htab.size := by
  obtain ⟨odd,half⟩ := or_one nel
  obtain ⟨size,found,above,bound,shape⟩ := next_prime_spec odd (by omega : (nel ||| 1) ≤ 2147483647)
    (by omega : 2147483647 < (nel ||| 1)+2*2^31)
  set htab : Htab := ⟨replicate (size+1) ⟨USED_FREE,[],[]⟩,size,0⟩ with htabIs
  have free : ∀ i, (htab.at i).used = USED_FREE := by
    intro i
    rw [Htab.at,htabIs,getD_eq_getElem?_getD,getElem?_replicate]
    split_ifs <;> rfl
  have empty : ∀ i key data, cells htab i ≠ .live key data := by
    intro i key data live
    exact (cell_live.mp live).1 (free i)
  refine ⟨htab,by rw [hcreate_r,found]; rfl,⟨shape,bound,by simp [htabIs],free 0,fun i => .inl (free i),⟨?_,?_⟩,?_⟩,?_,rfl,
    by simp only [htabIs]; omega⟩
  · intro i key data live
    exact absurd live (empty i key data)
  · intro i i' key data data' live
    exact absurd live (empty i key data)
  · symm
    refine Finset.card_eq_zero.mpr (Finset.filter_eq_empty_iff.mpr (fun i _ live => ?_))
    rw [cells,cell_isLive] at live
    exact live.1 (free i)
  · intro key data
    constructor
    · rintro ⟨i,live⟩
      exact absurd live (empty i key data)
    · intro none_
      cases none_

inductive Op where
  | find (key : Str)
  | enter (key data : Str) (replies : Replies)
  | delete (key : Str) (replies : Replies)
  deriving DecidableEq, Repr

/-- Whether an operation is accepted, the error number or code of a failure, and
    the table after it, if the operation returns. -/
def perform (htab : Htab) : Op → Option (Bool × Option Nat × Htab)
  | .find key => (hsearch_r htab key [] .ENV_FIND ⟨0,0⟩).map fun r => (decide (r.ret ≠ 0),r.errno,r.htab)
  | .enter key data replies =>
    (hsearch_r htab key data .ENV_ENTER replies).map fun r => (decide (r.ret ≠ 0),r.errno,r.htab)
  | .delete key replies => (hdelete_r htab key replies).map fun r => (decide (r.1 = 0),none,r.2)

/-- A table and what has been done to it, the last operation first, each with
    whether it was accepted. -/
structure Session where
  htab : Htab
  history : List (Op × Bool)

def step (s : Session) (op : Op) : Session :=
  match perform s.htab op with
  | none => s
  | some (accepted,_,htab) => ⟨htab,(op,accepted) :: s.history⟩

/-- The data of the last accepted entry of a key that no accepted deletion
    follows. -/
def last_entered : List (Op × Bool) → Str → Option Str
  | [], _ => none
  | (.enter key data _,true) :: older, k => if k = key then some data else last_entered older k
  | (.delete key _,true) :: older, k => if k = key then none else last_entered older k
  | _ :: older, k => last_entered older k

theorem last_entered_enter (key data : Str) (replies : Replies) (older : List (Op × Bool)) :
    last_entered ((.enter key data replies,true) :: older) = Function.update (last_entered older) key (some data) := by
  funext k
  rw [last_entered,update_apply]

theorem last_entered_delete (key : Str) (replies : Replies) (older : List (Op × Bool)) :
    last_entered ((.delete key replies,true) :: older) = Function.update (last_entered older) key none := by
  funext k
  rw [last_entered,update_apply]

/-- A table in order: a search finds what was entered last, no key is in two
    slots, and the slots in use are counted. -/
structure InOrder (s : Session) : Prop where
  finds : ∀ key, match last_entered s.history key with
    | some data => ∃ i, (1 ≤ i ∧ i ≤ s.htab.size) ∧ (s.htab.at i).key = key ∧ (s.htab.at i).data = data ∧
        hsearch_r s.htab key [] .ENV_FIND ⟨0,0⟩ = some ⟨i,some i,none,s.htab⟩
    | none => hsearch_r s.htab key [] .ENV_FIND ⟨0,0⟩ = some ⟨0,none,some ESRCH,s.htab⟩
  once : ∀ i j, 0 < (s.htab.at i).used → 0 < (s.htab.at j).used → (s.htab.at i).key = (s.htab.at j).key → i = j
  filled : s.htab.filled = ((Finset.Icc 1 s.htab.size).filter fun i => 0 < (s.htab.at i).used).card

def Stores (htab : Htab) (key data : Str) : Prop :=
  ∃ i, 1 ≤ i ∧ i ≤ htab.size ∧ 0 < (htab.at i).used ∧ (htab.at i).key = key ∧ (htab.at i).data = data

/-- What an operation keeps to: it returns, changes nothing when it is
    rejected, and an entry fails for lack of room only in a table whose slots are
    all in use. -/
def Keeps (s : Session) (op : Op) : Prop :=
  ∃ accepted errno htab, perform s.htab op = some (accepted,errno,htab) ∧
    (accepted = false → ∀ key data, Stores htab key data ↔ Stores s.htab key data) ∧
    (errno = some ENOMEM → ∀ i, 1 ≤ i → i ≤ s.htab.size → 0 < (s.htab.at i).used)

structure Refines (s : Session) : Prop where
  valid : Valid s.htab
  represents : Represents (cells s.htab) (last_entered s.history)

theorem stores_iff {htab : Htab} (valid : Valid htab) {key data : Str} :
    Stores htab key data ↔ Holds (cells htab) key data := by
  constructor
  · rintro ⟨i,low,high,used,rfl,rfl⟩
    have live := (cell_isLive.mp ((live_iff_used valid i).mpr used))
    exact ⟨i,cell_live.mpr ⟨live.1,live.2,rfl,rfl⟩⟩
  · rintro ⟨i,live⟩
    have isLive : (cells htab i).IsLive := by rw [live]; trivial
    obtain ⟨low,high⟩ := live_inside valid isLive
    obtain ⟨_,_,key,data⟩ := cell_live.mp live
    exact ⟨i,low,high,(live_iff_used valid i).mp isLive,key,data⟩

/-- No key is in two slots that are in use. -/
theorem used_unique {htab : Htab} (valid : Valid htab) (one : 0 < (htab.at i).used)
    (two : 0 < (htab.at j).used) (same : (htab.at i).key = (htab.at j).key) : i = j := by
  obtain ⟨firstFree,firstDeleted⟩ := cell_isLive.mp ((live_iff_used valid i).mpr one)
  obtain ⟨secondFree,secondDeleted⟩ := cell_isLive.mp ((live_iff_used valid j).mpr two)
  exact valid.probed.unique i j (htab.at i).key _ _ (cell_live.mpr ⟨firstFree,firstDeleted,rfl,rfl⟩)
    (cell_live.mpr ⟨secondFree,secondDeleted,same.symm,rfl⟩)

theorem inOrder_of_refines (refines : Refines s) : InOrder s := by
  obtain ⟨valid,represents⟩ := refines
  refine ⟨?_,?_,?_⟩
  · intro key
    have found := hsearch_find valid key represents [] ⟨0,0⟩
    cases entered : last_entered s.history key with
    | none =>
      rw [entered] at found
      exact found
    | some data =>
      rw [entered] at found
      obtain ⟨i,inside,live,searched⟩ := found
      obtain ⟨_,_,same,holds⟩ := cell_live.mp live
      exact ⟨i,inside,same,holds,searched⟩
  · intro i j one two same
    exact used_unique valid one two same
  · rw [valid.filled,count]
    exact congrArg Finset.card (Finset.filter_congr fun i _ => live_iff_used valid i)

/-- One operation keeps the refinement, and keeps to its rules. -/
theorem refines_step (refines : Refines s) (op : Op) : Refines (step s op) ∧ Keeps s op := by
  obtain ⟨valid,represents⟩ := refines
  have unchanged {htab : Htab} (new : Valid htab) (same : Represents (cells htab) (last_entered s.history)) (key data : Str) :
      Stores htab key data ↔ Stores s.htab key data := by
    rw [stores_iff new,stores_iff valid,same key data,represents key data]
  cases op with
  | find key =>
    have found := hsearch_find valid key represents [] ⟨0,0⟩
    have performed : ∃ accepted errno, perform s.htab (.find key) = some (accepted,errno,s.htab) ∧ errno ≠ some ENOMEM := by
      cases entered : last_entered s.history key with
      | none =>
        rw [entered] at found
        exact ⟨_,_,by rw [perform,found]; rfl,by simp [ESRCH,ENOMEM]⟩
      | some data =>
        rw [entered] at found
        obtain ⟨i,_,_,searched⟩ := found
        exact ⟨_,_,by rw [perform,searched]; rfl,by simp⟩
    obtain ⟨accepted,errno,returns,room⟩ := performed
    refine ⟨?_,accepted,errno,s.htab,returns,fun _ => unchanged valid represents,fun full => absurd full room⟩
    rw [step,returns]
    refine ⟨valid,?_⟩
    cases accepted <;> exact represents
  | enter key data replies =>
    obtain ⟨result,searched,entered⟩ := hsearch_enter valid key represents data replies
    have returns : perform s.htab (.enter key data replies) = some (decide (result.ret ≠ 0),result.errno,result.htab) := by
      rw [perform,searched]
      rfl
    refine ⟨?_,_,_,_,returns,?_,entered.full⟩
    · rw [step,returns]
      refine ⟨entered.valid,?_⟩
      by_cases success : result.ret ≠ 0
      · rw [decide_eq_true success]
        simp only [last_entered_enter]
        exact (entered.accepted success).1
      · rw [decide_eq_false success]
        exact entered.rejected (by simpa using success)
    · intro refused
      exact unchanged entered.valid (entered.rejected (by simpa using refused))
  | delete key replies =>
    obtain ⟨ret,after,deleted,afterValid,_,accepted,rejected⟩ := hdelete_spec valid key represents replies
    have returns : perform s.htab (.delete key replies) = some (decide (ret = 0),none,after) := by
      rw [perform,deleted]
      rfl
    refine ⟨?_,_,_,_,returns,?_,by simp⟩
    · rw [step,returns]
      refine ⟨afterValid,?_⟩
      by_cases success : ret = 0
      · rw [decide_eq_true success]
        simp only [last_entered_delete]
        exact accepted success
      · rw [decide_eq_false success,rejected success]
        exact represents
    · intro refused
      rw [rejected (by simpa using refused)]
      exact fun _ _ => Iff.rfl

theorem refines_run (refines : Refines s) (ops : List Op) : Refines (run step s ops) := by
  have keeps : ∀ s op, Refines s → True → Refines (step s op) := fun s op refines _ => (refines_step refines op).1
  exact invariant keeps refines (along_of_forall (fun _ _ => trivial) _ _)

/-- Every table that operations make of a new one is valid. -/
theorem valid_run (small : nel < 2^31) {htab : Htab} (created : hcreate_r nel = some htab) (ops : List Op) :
    Valid (run step ⟨htab,[]⟩ ops).htab := by
  obtain ⟨new,same,valid,empty,_⟩ := hcreate_spec small
  rw [same,Option.some_inj] at created
  subst created
  exact (refines_run ⟨valid,empty⟩ ops).valid

/-- The environment table refines a finite map: every table that `hcreate_r`
    makes is in order after every operation of every sequence of operations, and
    every operation keeps to its rules. -/
theorem env_table_refines_map (nel : Nat) (small : nel < 2^31) :
    ∃ htab, hcreate_r nel = some htab ∧ ∀ ops, InOrder (run step ⟨htab,[]⟩ ops) ∧ Along step Keeps ⟨htab,[]⟩ ops := by
  obtain ⟨htab,created,valid,empty,_⟩ := hcreate_spec small
  have start : Refines ⟨htab,[]⟩ := ⟨valid,empty⟩
  refine ⟨htab,created,fun ops => ?_⟩
  refine ⟨inOrder_of_refines (refines_run start ops),?_⟩
  exact along_of_invariant (fun s op (refines : Refines s) (_ : True) => (refines_step refines op).1)
    (fun s op refines _ => (refines_step refines op).2) start (along_of_forall (fun _ _ => trivial) _ _)

/-- A table for two entries has five slots. -/
theorem env_table_of_two_refines_map : ∃ htab, hcreate_r 2 = some htab ∧ htab.size = 5 ∧
    InOrder (run step ⟨htab,[]⟩ [.enter [97] [49] ⟨0,0⟩,.enter [98] [50] ⟨1,0⟩,.delete [97] ⟨0,0⟩,.find [97]]) := by
  obtain ⟨htab,created,ordered⟩ := env_table_refines_map 2 (by decide)
  have made : hcreate_r 2 = some ⟨List.replicate 6 ⟨USED_FREE,[],[]⟩,5,0⟩ := by decide +kernel
  refine ⟨htab,created,?_,(ordered _).1⟩
  rw [made,Option.some_inj] at created
  rw [← created]

end UBoot.Hashtable
