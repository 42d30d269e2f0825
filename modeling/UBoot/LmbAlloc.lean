import UBoot.LmbRuns

/-!
The search of `_lmb_alloc_base`: it gives the highest address that it looks at (`Offered`) in
the last bank that has one. Under a limit that the size fits below, these are the addresses that
a caller may be given (`Admissible`). Regions may end at 2^64.
-/
namespace UBoot.Lmb
open UBoot.Intervals List Option

/-- The regions lie in the address space, which they may reach the end of. -/
def InSpace (lst : List Region) : Prop := ∀ r ∈ lst, r.size < 2^64 ∧ r.stop ≤ 2^64

theorem last_byte {base size : Nat} (some_size : 0 < size) (fits : base+size ≤ 2^64) :
    sub64 (add64 base size) 1 = base+size-1 := by
  unfold sub64 add64
  omega

theorem last_byte_wrapped {base size : Nat} (inside : base < 2^64) (short : size < 2^64) (wraps : 2^64 < base+size) :
    sub64 (add64 base size) 1 = base+size-1-2^64 := by
  unfold sub64 add64
  omega

theorem overlap_in_space {base size : Nat} {r : Region} (some_size : 0 < size) (fits : base+size ≤ 2^64)
    (full : 0 < r.size) (bound : r.stop ≤ 2^64) :
    lmb_addrs_overlap base size r.base r.size = true ↔ base < r.stop ∧ r.base < base+size := by
  have stop : r.stop = r.base+r.size := rfl
  simp only [lmb_addrs_overlap]
  rw [last_byte some_size fits,last_byte full (stop ▸ bound),decide_eq_true_eq]
  omega

/-- A check with flags stops at the first region that the range overlaps. -/
theorem checks_none {lst : List Region} {base size : Nat} (some_size : 0 < size) (fits : base+size ≤ 2^64)
    (apart : Apart lst) (space : InSpace lst) :
    lmb_overlap_checks lst base size LMB_NOOVERWRITE true = none ↔ Clear lst base (base+size) := by
  rw [lmb_overlap_checks,findIdx?_eq_none_iff]
  constructor
  · intro passes r member
    have overlap := overlap_in_space some_size fits (apart.full r member) (space r member).2
    have passed := passes r member
    simp only [true_or,and_true,decide_eq_false_iff_not,overlap] at passed
    omega
  · intro clear r member
    have overlap := overlap_in_space some_size fits (apart.full r member) (space r member).2
    have apart_from := clear r member
    simp only [true_or,and_true,decide_eq_false_iff_not,overlap]
    omega

def PowerOfTwo (align : Nat) : Prop := ∃ k, k < 64 ∧ align = 2^k

theorem align_down_eq {x k : Nat} (inside : x < 2^64) (small : k < 64) : align_down x (2^k) = x/2^k*2^k := by
  have power : 2^k < 2^64 := Nat.pow_lt_pow_right (by decide) small
  have positive : 0 < 2^k := Nat.two_pow_pos k
  have mask : 2^64-1-sub64 (2^k) 1 = 2^64-(2^k-1+1) := by
    unfold sub64
    omega
  rw [align_down,mask,← Nat.shiftRight_eq_div_pow,← Nat.shiftLeft_eq]
  apply Nat.eq_of_testBit_eq
  intro i
  rw [Nat.testBit_and,Nat.testBit_two_pow_sub_succ (by omega),Nat.testBit_two_pow_sub_one,Nat.testBit_shiftLeft,
    Nat.testBit_shiftRight]
  by_cases low : i < k
  · simp [low,not_le.mpr low]
  · have index : k+(i-k) = i := by omega
    have high : k ≤ i := by omega
    rw [index]
    by_cases bit : i < 64
    · simp [low,high,bit]
    · have zero : x.testBit i = false := Nat.testBit_lt_two_pow (lt_of_lt_of_le inside (Nat.pow_le_pow_right (by decide) (by omega)))
      simp [zero]

theorem align_down_spec {align x : Nat} (power : PowerOfTwo align) (inside : x < 2^64) :
    align ∣ align_down x align ∧ align_down x align ≤ x ∧ ∀ b, align ∣ b → (b ≤ align_down x align ↔ b ≤ x) := by
  obtain ⟨k,small,rfl⟩ := power
  have below := align_down_le x (2^k)
  rw [align_down_eq inside small] at below ⊢
  refine ⟨Nat.dvd_mul_left _ _,below,?_⟩
  rintro b ⟨c,rfl⟩
  refine ⟨fun le => le.trans below,fun le => ?_⟩
  have quotient : c ≤ x/2^k := (Nat.le_div_iff_mul_le (Nat.two_pow_pos k)).mpr (by rwa [mul_comm])
  rw [mul_comm]
  exact Nat.mul_le_mul_right _ quotient

/-- The greatest number with a property, or none where there is none. -/
def Best (p : Nat → Prop) : Option Nat → Prop
  | none => ∀ b, ¬ p b
  | some b => IsGreatest {b | p b} b

theorem best_congr {p q : Nat → Prop} (same : ∀ b, p b ↔ q b) {found : Option Nat} (best : Best p found) : Best q found := by
  obtain rfl : p = q := funext fun b => propext (same b)
  exact best

/-- An aligned address in a bank whose range meets no reservation. -/
structure Free (used : List Region) (size align lmbbase b : Nat) : Prop where
  nonzero : b ≠ 0
  aligned : align ∣ b
  above : lmbbase ≤ b
  clear : Clear used b (b+size)

section search
variable {used : List Region} {size align : Nat} (apart : Apart used) (space : InSpace used) (some_size : 0 < size)
  (power : PowerOfTwo align)
include apart space some_size power

theorem alloc_below_best (lmbbase : Nat) {rounds base : Nat} (enough : base ≤ rounds) (aligned : align ∣ base)
    (fits : base+size ≤ 2^64) :
    ∃ found, alloc_below used lmbbase size align rounds base = some found ∧
      Best (fun b => Free used size align lmbbase b ∧ b ≤ base) found := by
  induction rounds generalizing base with
  | zero =>
    refine ⟨none,?_,?_⟩
    · rw [alloc_below,if_neg (by omega)]
    · rintro b ⟨free,le⟩
      exact free.nonzero (by omega)
  | succ rounds ih =>
    rw [alloc_below]
    by_cases inside : base ≠ 0 ∧ lmbbase ≤ base
    · rw [if_pos inside]
      cases checked : lmb_overlap_checks used base size LMB_NOOVERWRITE true with
      | none =>
        have clear := (checks_none some_size fits apart space).mp checked
        exact ⟨some base,rfl,⟨⟨inside.1,aligned,inside.2,clear⟩,le_rfl⟩,fun b below => below.2⟩
      | some i =>
        obtain ⟨member,overlap⟩ := overlap_checks_some checked
        have bound := (space _ member).2
        have stop : (rgn used i).stop = (rgn used i).base+(rgn used i).size := rfl
        rw [overlap_in_space some_size fits (apart.full _ member) bound] at overlap
        -- A free address lies below the reservation, since the range overlaps it.
        have below : ∀ b, Free used size align lmbbase b → b ≤ base → b+size ≤ (rgn used i).base := by
          intro b free le
          have apart_from := free.clear _ member
          omega
        simp only
        by_cases small : (rgn used i).base < size
        · rw [if_pos small]
          refine ⟨none,rfl,?_⟩
          rintro b ⟨free,le⟩
          have := below b free le
          omega
        · rw [if_neg small,sub64_eq (by omega) (by omega)]
          obtain ⟨again,lower,highest⟩ := align_down_spec power (show (rgn used i).base-size < 2^64 by omega)
          obtain ⟨found,ends,best⟩ := @ih (align_down ((rgn used i).base-size) align) (by omega) again (by omega)
          refine ⟨found,ends,best_congr (fun b => and_congr_right fun free => ?_) best⟩
          rw [highest b free.aligned]
          have := below b free
          omega
    · rw [if_neg inside]
      refine ⟨none,rfl,?_⟩
      rintro b ⟨free,le⟩
      refine inside ⟨?_,free.above.trans le⟩
      have := free.nonzero
      omega

end search

/-- What the search looks at in a bank: addresses from its start on down, or the start alone where
    the range that begins there leaves the address space. -/
def Offered (used : List Region) (size align max_addr : Nat) (r : Region) (b : Nat) : Prop :=
  ∃ start, alloc_start r size align max_addr = some start ∧ b ≠ 0 ∧ align ∣ b ∧ r.base ≤ b ∧ b ≤ start ∧
    (b = start ∨ start+size ≤ 2^64) ∧ lmb_overlap_checks used b size LMB_NOOVERWRITE true = none

/-- The highest address with a property, in the last bank that has one. -/
def Highest (p : Region → Nat → Prop) (banks : List Region) (b : Nat) : Prop :=
  ∃ (i : Nat) (r : Region), banks[i]? = some r ∧ IsGreatest {b | p r b} b ∧
    ∀ (j : Nat) (s : Region), i < j → banks[j]? = some s → ∀ b, ¬ p s b

theorem highest_unique {p : Region → Nat → Prop} {banks : List Region} {b c : Nat} (first : Highest p banks b)
    (second : Highest p banks c) : b = c := by
  obtain ⟨i,r,at_i,bestB,afterB⟩ := first
  obtain ⟨j,s,at_j,bestC,afterC⟩ := second
  rcases lt_trichotomy i j with less | rfl | more
  · exact absurd bestC.1 (afterB j s less at_j c)
  · obtain rfl : r = s := some_inj.mp (at_i.symm.trans at_j)
    exact bestB.unique bestC
  · exact absurd bestB.1 (afterC i r more at_i b)

theorem highest_congr {p q : Region → Nat → Prop} {banks : List Region} (same : ∀ r ∈ banks, ∀ b, p r b ↔ q r b) (b : Nat) :
    Highest p banks b ↔ Highest q banks b := by
  have one : ∀ {p q : Region → Nat → Prop}, (∀ r ∈ banks, ∀ b, p r b ↔ q r b) → Highest p banks b → Highest q banks b := by
    intro p q same ⟨i,r,at_i,best,after⟩
    have equal : p r = q r := funext fun b => propext (same r (mem_of_getElem? at_i) b)
    refine ⟨i,r,at_i,equal ▸ best,fun j s less at_j b holds => ?_⟩
    exact after j s less at_j b ((same s (mem_of_getElem? at_j) b).mpr holds)
  exact ⟨one same,one fun r member b => (same r member b).symm⟩

def alloc_in (used : List Region) (size align max_addr : Nat) (r : Region) : Option (Option Nat) :=
  match alloc_start r size align max_addr with
  | none => some none
  | some start => alloc_below used r.base size align start start

/-- The search gives the best of the last bank that has one. -/
theorem alloc_search_highest {used : List Region} {size align max_addr : Nat} {p : Region → Nat → Prop} {banks : List Region}
    (each : ∀ r ∈ banks, ∃ found, alloc_in used size align max_addr r = some found ∧ Best (p r) found) :
    ∃ found, alloc_search used size align max_addr banks.reverse = some found ∧
      (∀ b, found = some b ↔ Highest p banks b) ∧ (found = none → ∀ r ∈ banks, ∀ b, ¬ p r b) := by
  induction banks using reverseRecOn with
  | nil => exact ⟨none,rfl,fun b => ⟨by simp,fun ⟨i,r,at_i,_⟩ => by simp at at_i⟩,by simp⟩
  | append_singleton banks r ih =>
    obtain ⟨here,inBank,best⟩ := each r (by simp)
    obtain ⟨later,searched,spec,nothing⟩ := ih fun s member => each s (by simp [member])
    have unfolded : alloc_search used size align max_addr (banks ++ [r]).reverse =
        here.elim (alloc_search used size align max_addr banks.reverse) (fun b => some (some b)) := by
      rw [reverse_append,reverse_singleton,singleton_append,alloc_search]
      unfold alloc_in at inBank
      cases starts : alloc_start r size align max_addr with
      | none =>
        rw [starts] at inBank
        obtain rfl : none = here := some_inj.mp inBank
        rfl
      | some start =>
        rw [starts] at inBank
        simp only at inBank ⊢
        rw [inBank]
        cases here <;> rfl
    have last : (banks ++ [r])[banks.length]? = some r := by simp
    rw [unfolded]
    cases here with
    | none =>
      refine ⟨later,searched,fun b => (spec b).trans ?_,fun is s member b holds => ?_⟩
      · constructor
        · rintro ⟨i,s,at_i,greatest,after⟩
          have inside : i < banks.length := (List.getElem?_eq_some_iff.mp at_i).1
          refine ⟨i,s,by rw [getElem?_append_left inside]; exact at_i,greatest,fun j t less at_j b => ?_⟩
          by_cases end_ : j < banks.length
          · rw [getElem?_append_left end_] at at_j
            exact after j t less at_j b
          · have index : j = banks.length := by
              have := (List.getElem?_eq_some_iff.mp at_j).1
              simp at this
              omega
            rw [index,last] at at_j
            obtain rfl := some_inj.mp at_j
            exact best b
        · rintro ⟨i,s,at_i,greatest,after⟩
          by_cases inside : i < banks.length
          · rw [getElem?_append_left inside] at at_i
            refine ⟨i,s,at_i,greatest,fun j t less at_j b => after j t less ?_ b⟩
            have := (List.getElem?_eq_some_iff.mp at_j).1
            rw [getElem?_append_left this]
            exact at_j
          · have index : i = banks.length := by
              have := (List.getElem?_eq_some_iff.mp at_i).1
              simp at this
              omega
            rw [index,last] at at_i
            obtain rfl := some_inj.mp at_i
            exact absurd greatest.1 (best b)
      · rcases mem_append.mp member with old | new
        · exact nothing is s old b holds
        · obtain rfl := mem_singleton.mp new
          exact best b holds
    | some found =>
      have highest : Highest p (banks ++ [r]) found := by
        refine ⟨banks.length,r,last,best,fun j s less at_j => ?_⟩
        have := (List.getElem?_eq_some_iff.mp at_j).1
        simp at this
        omega
      refine ⟨some found,rfl,fun b => ⟨fun is => ?_,fun other => ?_⟩,by simp⟩
      · obtain rfl := some_inj.mp is
        exact highest
      · rw [highest_unique highest other]

/-- An address that a caller may be given: aligned, in the bank, below the limit and free. -/
structure Admissible (used : List Region) (size align max_addr : Nat) (r : Region) (b : Nat) : Prop
    extends Free used size align r.base b where
  inside : b+size ≤ r.stop
  below : max_addr ≠ LMB_ALLOC_ANYWHERE → b+size ≤ max_addr

section bank
variable {r : Region} {size align max_addr : Nat} (small : r.size < 2^64) (bound : r.stop ≤ 2^64)
  (some_size : 0 < size) (power : PowerOfTwo align) (address : max_addr < 2^64)
include small bound some_size power address

theorem alloc_start_spec {start : Nat} (starts : alloc_start r size align max_addr = some start) :
    size ≤ r.size ∧ align ∣ start ∧ start < 2^64 ∧
      ((max_addr = LMB_ALLOC_ANYWHERE ∨ size ≤ max_addr) → start+size ≤ 2^64 ∧ ∀ b, align ∣ b →
        (b ≤ start ↔ b+size ≤ r.stop ∧ (max_addr ≠ LMB_ALLOC_ANYWHERE → b+size ≤ max_addr))) := by
  have stop : r.stop = r.base+r.size := rfl
  rw [alloc_start] at starts
  by_cases short : r.size < size
  · simp [short] at starts
  rw [if_neg short] at starts
  by_cases anywhere : max_addr = LMB_ALLOC_ANYWHERE
  · have from_end : sub64 (add64 r.base r.size) size = r.stop-size := by
      unfold sub64 add64
      omega
    rw [if_pos anywhere,from_end,some_inj] at starts
    obtain ⟨again,lower,highest⟩ := align_down_spec power (show r.stop-size < 2^64 by omega)
    rw [starts] at again lower highest
    refine ⟨by omega,again,by omega,fun _ => ⟨by omega,fun b aligned => ?_⟩⟩
    rw [highest b aligned]
    simp only [anywhere,ne_eq,not_true_eq_false,false_implies,and_true]
    omega
  · rw [if_neg anywhere] at starts
    by_cases below : r.base < max_addr
    · have end_ : min (if add64 r.base r.size < r.base then 2^64-1 else add64 r.base r.size) max_addr = min r.stop max_addr := by
        unfold add64
        split_ifs <;> omega
      simp only [if_pos below,end_,some_inj] at starts
      have reduced : sub64 (min r.stop max_addr) size < 2^64 := Nat.mod_lt _ (by decide)
      obtain ⟨again,lower,highest⟩ := align_down_spec power reduced
      rw [starts] at again lower highest
      refine ⟨by omega,again,by omega,fun limit => ?_⟩
      have enough : size ≤ max_addr := limit.resolve_left anywhere
      rw [sub64_eq (by omega) (by omega)] at lower highest
      refine ⟨by omega,fun b aligned => ?_⟩
      rw [highest b aligned]
      have limited : max_addr ≠ LMB_ALLOC_ANYWHERE := anywhere
      simp only [ne_eq,anywhere,not_false_eq_true,forall_const]
      omega
    · simp [below] at starts

omit small bound power address in
theorem alloc_start_none (starts : alloc_start r size align max_addr = none) {used : List Region} (b : Nat) :
    ¬ Admissible used size align max_addr r b := by
  rintro ⟨free,inside,limit⟩
  have stop : r.stop = r.base+r.size := rfl
  have above := free.above
  rw [alloc_start,if_neg (show ¬ r.size < size by omega)] at starts
  by_cases anywhere : max_addr = LMB_ALLOC_ANYWHERE
  · simp [anywhere] at starts
  · have below := limit anywhere
    simp [anywhere,show r.base < max_addr by omega] at starts

variable {used : List Region} (apart : Apart used) (space : InSpace used)
include apart space

theorem alloc_in_best (short : size < 2^64) :
    ∃ found, alloc_in used size align max_addr r = some found ∧ Best (Offered used size align max_addr r) found := by
  rw [alloc_in]
  cases starts : alloc_start r size align max_addr with
  | none =>
    refine ⟨none,rfl,?_⟩
    rintro b ⟨start,is,_⟩
    rw [starts] at is
    contradiction
  | some start =>
    obtain ⟨fits,aligned,high,_⟩ := alloc_start_spec small bound some_size power address starts
    have stop : r.stop = r.base+r.size := rfl
    have only : ∀ other, alloc_start r size align max_addr = some other → start = other := fun other is =>
      some_inj.mp (starts.symm.trans is)
    by_cases inside : start+size ≤ 2^64
    · obtain ⟨found,ends,best⟩ := alloc_below_best apart space some_size power r.base (le_refl start) aligned inside
      refine ⟨found,ends,best_congr (fun b => ⟨?_,?_⟩) best⟩
      · rintro ⟨free,le⟩
        exact ⟨start,starts,free.nonzero,free.aligned,free.above,le,.inr inside,
          (checks_none some_size (by omega) apart space).mpr free.clear⟩
      · rintro ⟨other,is,nonzero,divides,above,le,_,checked⟩
        obtain rfl := only other is
        exact ⟨⟨nonzero,divides,above,(checks_none some_size (by omega) apart space).mp checked⟩,le⟩
    -- The range wraps, and the search goes on below a reservation only if that lies above the size.
    have searched : start ≠ 0 ∧ r.base ≤ start := by omega
    dsimp only
    rw [alloc_below.eq_def]
    dsimp only
    rw [if_pos searched]
    cases checked : lmb_overlap_checks used start size LMB_NOOVERWRITE true with
    | none =>
      refine ⟨some start,rfl,⟨start,starts,searched.1,aligned,searched.2,le_rfl,.inl rfl,checked⟩,?_⟩
      rintro b ⟨other,is,_,_,_,le,_⟩
      rwa [only other is]
    | some i =>
      obtain ⟨member,overlap⟩ := overlap_checks_some checked
      simp only [lmb_addrs_overlap,decide_eq_true_eq,last_byte_wrapped high short (by omega)] at overlap
      have low : (rgn used i).base < size := by omega
      simp only [if_pos low]
      refine ⟨none,rfl,?_⟩
      rintro b ⟨other,is,_,_,_,_,only_start,clear⟩
      obtain rfl := only other is
      obtain rfl := only_start.resolve_right inside
      rw [checked] at clear
      contradiction

/-- Under a limit that the size fits below, the search looks at what a caller may be given. -/
theorem offered_iff (limit : max_addr = LMB_ALLOC_ANYWHERE ∨ size ≤ max_addr) (b : Nat) :
    Offered used size align max_addr r b ↔ Admissible used size align max_addr r b := by
  constructor
  · rintro ⟨start,starts,nonzero,aligned,above,le,_,checked⟩
    obtain ⟨_,_,_,spec⟩ := alloc_start_spec small bound some_size power address starts
    obtain ⟨fits,highest⟩ := spec limit
    obtain ⟨inside,below⟩ := (highest b aligned).mp le
    exact ⟨⟨nonzero,aligned,above,(checks_none some_size (by omega) apart space).mp checked⟩,inside,below⟩
  · intro admissible
    cases starts : alloc_start r size align max_addr with
    | none => exact absurd admissible (alloc_start_none some_size starts b)
    | some start =>
      obtain ⟨_,_,_,spec⟩ := alloc_start_spec small bound some_size power address starts
      obtain ⟨fits,highest⟩ := spec limit
      obtain ⟨⟨nonzero,aligned,above,clear⟩,inside,below⟩ := admissible
      exact ⟨start,starts,nonzero,aligned,above,(highest b aligned).mpr ⟨inside,below⟩,.inr fits,
        (checks_none some_size (by omega) apart space).mpr clear⟩

end bank

structure Listed (lmb : Lmb) : Prop where
  canonical : BothCanonical lmb
  available : InSpace lmb.available_mem.regions
  used : InSpace lmb.used_mem.regions

/-- A request: a size, an alignment and a limit that are 64 bits wide. -/
structure Request (size align max_addr : Nat) : Prop where
  some_size : 0 < size
  short : size < 2^64
  power : PowerOfTwo align
  address : max_addr < 2^64

section answers
variable {lmb : Lmb} (listed : Listed lmb) {size align max_addr : Nat} (request : Request size align max_addr)
include listed request

theorem alloc_search_offered :
    ∃ found, alloc_search lmb.used_mem.regions size align max_addr lmb.available_mem.regions.reverse = some found ∧
      (∀ b, found = some b ↔ Highest (Offered lmb.used_mem.regions size align max_addr) lmb.available_mem.regions b) ∧
      (found = none → ∀ r ∈ lmb.available_mem.regions, ∀ b, ¬ Offered lmb.used_mem.regions size align max_addr r b) :=
  alloc_search_highest fun r member => alloc_in_best (listed.available r member).1 (listed.available r member).2
    request.some_size request.power request.address listed.canonical.2.1 listed.used request.short

/-- What `_lmb_alloc_base` returns: an error where it looks at no free address; otherwise the
    highest one, unless the list does not take it, which is not reported, or the notification is
    refused. -/
theorem alloc_base_cases (flags : Nat) (out : Outside) :
    ((∀ r ∈ lmb.available_mem.regions, ∀ b, ¬ Offered lmb.used_mem.regions size align max_addr r b) ∧
      _lmb_alloc_base lmb size align max_addr flags out = some (-1,max_addr,lmb)) ∨
    ∃ b after, Highest (Offered lmb.used_mem.regions size align max_addr) lmb.available_mem.regions b ∧
      ((lmb_add_region_flags lmb.used_mem b size flags out.memory).1 ≠ 0 ∧
          _lmb_alloc_base lmb size align max_addr flags out = some (0,max_addr,after) ∨
        (lmb_add_region_flags lmb.used_mem b size flags out.memory).1 = 0 ∧ out.notified = false ∧
          _lmb_alloc_base lmb size align max_addr flags out = some (-1,max_addr,after) ∨
        (lmb_add_region_flags lmb.used_mem b size flags out.memory).1 = 0 ∧ out.notified = true ∧
          _lmb_alloc_base lmb size align max_addr flags out = some (0,b,after)) := by
  obtain ⟨found,searched,spec,nothing⟩ := alloc_search_offered listed request
  rw [_lmb_alloc_base,searched]
  cases found with
  | none => exact .inl ⟨nothing rfl,rfl⟩
  | some b =>
    refine .inr ⟨b,{ lmb with used_mem := (lmb_add_region_flags lmb.used_mem b size flags out.memory).2 },(spec b).mp rfl,?_⟩
    cases added : lmb_add_region_flags lmb.used_mem b size flags out.memory with
    | mk ret used =>
      by_cases taken : ret = 0
      · cases told : out.notified with
        | false => exact .inr (.inl ⟨taken,rfl,by simp [added,taken,lmb_map_update_notify,told]⟩)
        | true => exact .inr (.inr ⟨taken,rfl,by simp [added,taken,lmb_map_update_notify,told]⟩)
      · exact .inl ⟨taken,by simp [added,taken]⟩

end answers

/-- `_lmb_alloc_base` returns, with an address where there is one to give, and the address is the
    highest in the last bank that has one. -/
def FindsHighest (lmb : Lmb) (size align max_addr flags : Nat) (out : Outside) : Prop :=
  ∃ ret addr after, _lmb_alloc_base lmb size align max_addr flags out = some (ret,addr,after) ∧
    ((∃ r ∈ lmb.available_mem.regions, ∃ b, Admissible lmb.used_mem.regions size align max_addr r b) → ret = 0) ∧
    (ret = 0 → Highest (Admissible lmb.used_mem.regions size align max_addr) lmb.available_mem.regions addr)

/-- The reservation of an address is put into the list and the change is accepted. -/
def Recorded (lmb : Lmb) (size flags : Nat) (out : Outside) (b : Nat) : Prop :=
  (lmb_add_region_flags lmb.used_mem b size flags out.memory).1 = 0 ∧ out.notified = true

theorem alloc_base_finds_highest {lmb : Lmb} (listed : Listed lmb) {size align max_addr : Nat}
    (request : Request size align max_addr) (limit : max_addr = LMB_ALLOC_ANYWHERE ∨ size ≤ max_addr) (flags : Nat) (out : Outside) :
    FindsHighest lmb size align max_addr flags out ↔
      ∀ b, Highest (Admissible lmb.used_mem.regions size align max_addr) lmb.available_mem.regions b →
        Recorded lmb size flags out b := by
  have same : ∀ r ∈ lmb.available_mem.regions, ∀ b,
      Offered lmb.used_mem.regions size align max_addr r b ↔ Admissible lmb.used_mem.regions size align max_addr r b :=
    fun r member => offered_iff (listed.available r member).1 (listed.available r member).2 request.some_size request.power
      request.address listed.canonical.2.1 listed.used limit
  have highest := highest_congr same
  have some_size := request.some_size
  -- An address in use is not the limit that is left behind when the list does not take it.
  have other : ∀ b, Highest (Admissible lmb.used_mem.regions size align max_addr) lmb.available_mem.regions b → b ≠ max_addr := by
    rintro b ⟨i,r,_,best,_⟩ rfl
    have below := best.1.below
    have nonzero := best.1.nonzero
    unfold LMB_ALLOC_ANYWHERE at below
    omega
  rcases alloc_base_cases listed request flags out with ⟨nothing,returns⟩ | ⟨b,after,found,cases_⟩
  · have none_ : ∀ b, ¬ Highest (Admissible lmb.used_mem.regions size align max_addr) lmb.available_mem.regions b := by
      rintro b ⟨i,r,at_i,best,_⟩
      have member := List.mem_of_getElem? at_i
      exact nothing r member b ((same r member b).mpr best.1)
    refine ⟨fun _ b is => absurd is (none_ b),fun _ => ⟨-1,max_addr,lmb,returns,?_,by simp⟩⟩
    rintro ⟨r,member,b,admissible⟩
    exact absurd ((same r member b).mpr admissible) (nothing r member b)
  · rw [highest b] at found
    have exists_ : ∃ r ∈ lmb.available_mem.regions, ∃ b, Admissible lmb.used_mem.regions size align max_addr r b := by
      obtain ⟨i,r,at_i,best,_⟩ := found
      exact ⟨r,List.mem_of_getElem? at_i,b,best.1⟩
    constructor
    · rintro ⟨ret,addr,left,returns,succeeds,right⟩ c is
      obtain rfl := highest_unique found is
      rcases cases_ with ⟨_,other_returns⟩ | ⟨_,_,other_returns⟩ | ⟨taken,told,_⟩
      · rw [other_returns,Option.some_inj] at returns
        cases returns
        exact absurd (highest_unique found (right rfl)) (other b found)
      · rw [other_returns,Option.some_inj] at returns
        cases returns
        exact absurd (succeeds exists_) (by decide)
      · exact ⟨taken,told⟩
    · intro recorded
      obtain ⟨taken,told⟩ := recorded b found
      rcases cases_ with ⟨refused,_⟩ | ⟨_,untold,_⟩ | ⟨_,_,returns⟩
      · exact absurd taken refused
      · rw [told] at untold
        contradiction
      · exact ⟨0,b,after,returns,fun _ => rfl,fun _ => found⟩

def one_reservation : Lmb := ⟨⟨[⟨16,48,0⟩],4,false⟩,⟨[⟨40,8,4⟩],4,false⟩⟩

theorem one_reservation_listed : Listed one_reservation where
  canonical := ⟨⟨⟨by decide,by simp [one_reservation]⟩,by simp [Merged,one_reservation]⟩,
    ⟨by decide,by simp [one_reservation]⟩,by simp [Merged,one_reservation]⟩
  available := by simp [InSpace,one_reservation,Interval.stop]
  used := by simp [InSpace,one_reservation,Interval.stop]

theorem alloc_above_reservation : FindsHighest one_reservation 8 8 64 0 ⟨true,true⟩ := by
  refine (alloc_base_finds_highest one_reservation_listed ⟨by decide,by decide,⟨3,by decide⟩,by decide⟩ (.inr (by decide)) 0 _).mpr ?_
  rintro b ⟨i,r,_,best,_⟩
  have below := best.1.below (by decide)
  have placed : Placed one_reservation.used_mem.regions := ⟨one_reservation_listed.canonical.2.1,by simp [Bounded,one_reservation,Interval.stop]⟩
  have returns := @add_region_flags_returns _ b 8 0 placed ⟨by decide,by omega⟩ (clear_plain best.1.clear) true
  refine ⟨returns.resolve_right ?_,rfl⟩
  simp [one_reservation]

/-- A bank with four reservations in a list that has no room for a fifth. -/
def full_list : Lmb := ⟨⟨[⟨16,48,0⟩],4,false⟩,⟨[⟨20,1,4⟩,⟨24,1,4⟩,⟨28,1,4⟩,⟨32,1,4⟩],4,false⟩⟩

theorem full_list_listed : Listed full_list where
  canonical := ⟨⟨⟨by decide,by simp [full_list]⟩,by simp [Merged,full_list]⟩,
    ⟨by decide,by simp [full_list,Interval.stop]⟩,by simp [Merged,full_list,Interval.stop]⟩
  available := by simp [InSpace,full_list,Interval.stop]
  used := by simp [InSpace,full_list,Interval.stop]

/-- The list cannot grow: success is reported and the address is the limit. -/
theorem alloc_full_list : ¬ ∀ (lmb : Lmb) (size align max_addr flags : Nat) (out : Outside), Listed lmb →
    Request size align max_addr → max_addr = LMB_ALLOC_ANYWHERE ∨ size ≤ max_addr →
    FindsHighest lmb size align max_addr flags out := by
  intro claim
  obtain ⟨ret,addr,after,returns,succeeds,right⟩ := claim full_list 4 4 64 0 ⟨false,true⟩ full_list_listed
    ⟨by decide,by decide,⟨2,by decide⟩,by decide⟩ (.inr (by decide))
  have answer : (_lmb_alloc_base full_list 4 4 64 0 ⟨false,true⟩).map (fun result => (result.1,result.2.1)) = some (0,64) := by
    decide
  rw [returns] at answer
  obtain ⟨rfl,rfl⟩ := Prod.mk.injEq .. ▸ Option.some_inj.mp answer
  obtain ⟨i,r,_,best,_⟩ := right rfl
  exact absurd (best.1.below (by decide)) (by decide)

end UBoot.Lmb
