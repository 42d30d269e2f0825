import UBoot.LmbAlloc

/-!
What a caller of `lmb_alloc_mem` and of `lmb_get_free_size` may rely on, and the cases in which
it may not: a limit below the size, a list that cannot grow, a named range that begins before its
bank (`Reliable`), and a count that goes over the end of a bank (`Countable`).
-/
namespace UBoot.Lmb
open UBoot.Intervals List Option

def search_limit : MemType → Nat → Nat
  | .any, _ => LMB_ALLOC_ANYWHERE
  | _, addr => addr

/-- What a caller relies on: a range that is searched is aligned, in one bank, below the limit and
    free; a range that is named is in one bank. -/
def Trustworthy (lmb : Lmb) (type : MemType) (align addr size flags : Nat) (out : Outside) : Prop :=
  ∀ a after, lmb_alloc_mem lmb type align addr size flags out = some (0,a,after) →
    if type = .addr then ∃ r ∈ lmb.available_mem.regions, r.base ≤ addr ∧ addr+size ≤ r.stop
    else align ∣ a ∧ a+size ≤ 2^64 ∧ (∃ r ∈ lmb.available_mem.regions, r.base ≤ a ∧ a+size ≤ r.stop) ∧
      (type = .max → addr ≠ 0 → a+size ≤ addr) ∧ Clear lmb.used_mem.regions a (a+size)

/-- The first bank that a range meets begins behind its first byte and holds its last one; a range
    that wraps has a bank from its last byte to its first. -/
def Hangs (banks : List Region) (addr size : Nat) (r : Region) : Prop :=
  if addr+size ≤ 2^64 then addr < r.base ∧ r.base < addr+size ∧ addr+size ≤ r.stop ∧ Clear banks addr r.base
  else r.base+2^64 < addr+size ∧ addr < r.stop

def Reliable (lmb : Lmb) (type : MemType) (align addr size flags : Nat) (out : Outside) : Prop :=
  if type = .addr then
    ∀ r ∈ lmb.available_mem.regions, Hangs lmb.available_mem.regions addr size r → (lmb_reserve lmb addr size flags out).1 ≠ 0
  else
    ∀ b, Highest (Offered lmb.used_mem.regions size align (search_limit type addr)) lmb.available_mem.regions b →
      if (lmb_add_region_flags lmb.used_mem b size flags out.memory).1 = 0 then
        out.notified = true → search_limit type addr = 0 ∨ size ≤ search_limit type addr
      else search_limit type addr = 0 ∧ Clear lmb.used_mem.regions 0 size ∧
        ∃ r ∈ lmb.available_mem.regions, r.base = 0 ∧ size ≤ r.stop

theorem search_limit_lt {type : MemType} {addr : Nat} (address : addr < 2^64) : search_limit type addr < 2^64 := by
  cases type with
  | any => exact Nat.two_pow_pos 64
  | max | addr => exact address

section soundness
variable {lmb : Lmb} (listed : Listed lmb) {size align addr : Nat} (request : Request size align addr)
include listed request

/-- A range that is searched. -/
theorem search_trustworthy_iff {type : MemType} (searched : type ≠ .addr) (flags : Nat) (out : Outside) :
    Trustworthy lmb type align addr size flags out ↔ Reliable lmb type align addr size flags out := by
  have some_size := request.some_size
  have short := request.short
  have called : lmb_alloc_mem lmb type align addr size flags out =
      _lmb_alloc_base lmb size align (search_limit type addr) flags out := by
    unfold lmb_alloc_mem
    rw [if_neg (by omega)]
    cases type with
    | any => rfl
    | max => rfl
    | addr => exact absurd rfl searched
  have limited : type = .max → search_limit type addr = addr := by
    rintro rfl
    rfl
  have unlimited : search_limit type addr ≠ 0 → type = .max := by
    intro nonzero
    cases type with
    | any => exact absurd rfl nonzero
    | max => rfl
    | addr => exact absurd rfl searched
  have limited_request : Request size align (search_limit type addr) :=
    ⟨some_size,short,request.power,search_limit_lt request.address⟩
  unfold Trustworthy Reliable
  rw [called]
  simp only [if_neg searched]
  generalize search_limit type addr = limit at *
  rcases alloc_base_cases listed limited_request flags out with ⟨nothing,returns⟩ | ⟨b,after,found,answer⟩
  · refine ⟨fun _ b is => ?_,fun _ a after' is => ?_⟩
    · obtain ⟨i,r,at_i,best,_⟩ := is
      exact absurd best.1 (nothing r (mem_of_getElem? at_i) b)
    · rw [returns] at is
      cases is
  have only : ∀ c, Highest (Offered lmb.used_mem.regions size align limit) lmb.available_mem.regions c → c = b :=
    fun c is => highest_unique is found
  rcases answer with ⟨refused,returns⟩ | ⟨taken,untold,returns⟩ | ⟨taken,told,returns⟩
  · -- The list does not take the range, and the limit is given back.
    constructor
    · intro trust c is
      obtain rfl := only c is
      rw [if_neg refused]
      obtain ⟨_,_,⟨r,member,low,high⟩,below,clear⟩ := trust limit after returns
      have zero : limit = 0 := by
        by_contra nonzero
        have is_max := unlimited nonzero
        have same := limited is_max
        have := below is_max (by omega)
        omega
      subst zero
      exact ⟨rfl,by simpa using clear,r,member,by omega,by omega⟩
    · intro reliable a left is
      have spec := reliable b found
      rw [if_neg refused] at spec
      obtain ⟨rfl,clear,r,member,low,high⟩ := spec
      rw [returns] at is
      cases is
      refine ⟨Nat.dvd_zero _,by omega,⟨r,member,by omega,by omega⟩,fun is_max nonzero => ?_,by simpa using clear⟩
      have := limited is_max
      omega
  · -- The change is refused, and that is reported.
    constructor
    · intro _ c is
      obtain rfl := only c is
      rw [if_pos taken,untold]
      simp
    · intro _ a left is
      rw [returns] at is
      cases is
  · constructor
    · intro trust c is
      obtain rfl := only c is
      rw [if_pos taken]
      intro _
      obtain ⟨_,_,_,below,_⟩ := trust c after returns
      by_cases zero : limit = 0
      · exact .inl zero
      · have is_max := unlimited zero
        have same := limited is_max
        have := below is_max (by omega)
        exact .inr (by omega)
    · intro reliable a left is
      have spec := reliable b found
      rw [if_pos taken] at spec
      have limit_ok := spec told
      rw [returns] at is
      cases is
      obtain ⟨i,r,at_i,best,_⟩ := found
      have member := mem_of_getElem? at_i
      obtain ⟨free,inside,below⟩ := (offered_iff (listed.available r member).1 (listed.available r member).2 some_size
        request.power limited_request.address listed.canonical.2.1 listed.used limit_ok b).mp best.1
      have bound := (listed.available r member).2
      refine ⟨free.aligned,by omega,⟨r,member,free.above,inside⟩,fun is_max nonzero => ?_,free.clear⟩
      have same := limited is_max
      have := below (by unfold LMB_ALLOC_ANYWHERE; omega)
      omega

theorem alloc_addr_bank {i : Nat}
    (found : lmb_overlap_checks lmb.available_mem.regions addr size LMB_NOOVERWRITE true = some i)
    (ends : lmb_addrs_overlap (rgn lmb.available_mem.regions i).base (rgn lmb.available_mem.regions i).size
      (sub64 (add64 addr size) 1) 1 = true) :
    ((rgn lmb.available_mem.regions i).base ≤ addr ∧ addr+size ≤ (rgn lmb.available_mem.regions i).stop) ∨
      Hangs lmb.available_mem.regions addr size (rgn lmb.available_mem.regions i) := by
  have some_size := request.some_size
  have short := request.short
  have address := request.address
  have apart := listed.canonical.1.1
  obtain ⟨before,r,after,split,index,overlap,earlier⟩ := findIdx?_split found
  have here : rgn lmb.available_mem.regions i = r := by
    rw [split,← index]
    exact rgn_at before r after
  have member : r ∈ lmb.available_mem.regions := by simp [split]
  have full := apart.full r member
  have bound := (listed.available r member).2
  have stop : r.stop = r.base+r.size := rfl
  rw [here] at ends ⊢
  simp only [true_or,and_true,decide_eq_true_eq] at overlap
  unfold Hangs
  by_cases fits : addr+size ≤ 2^64
  · have byte := @overlap_in_space r.base r.size ⟨addr+size-1,1,0⟩ full bound Nat.one_pos (by simp only [Interval.stop]; omega)
    rw [last_byte some_size fits,byte] at ends
    rw [overlap_in_space some_size fits full bound] at overlap
    rw [if_pos fits]
    simp only [Interval.stop] at ends
    by_cases low : r.base ≤ addr
    · exact .inl ⟨low,by omega⟩
    refine .inr ⟨by omega,overlap.2,by omega,fun s among => ?_⟩
    -- Banks before this one do not meet the range, banks behind it lie above.
    rw [split] at among apart
    obtain ⟨_,rest,lower⟩ := apart_append.mp apart
    obtain ⟨_,higher,_⟩ := apart_cons.mp rest
    rcases mem_append.mp among with front | back
    · have misses := earlier s front
      have member_s : s ∈ lmb.available_mem.regions := by simp [split,front]
      have overlap_s := overlap_in_space some_size fits (listed.canonical.1.1.full s member_s) (listed.available s member_s).2
      simp only [true_or,and_true,decide_eq_false_iff_not,overlap_s] at misses
      have := lower s front r (by simp)
      omega
    · rcases mem_cons.mp back with rfl | behind
      · exact .inr le_rfl
      · have := higher s behind
        exact .inr (by omega)
  · rw [if_neg fits]
    simp only [lmb_addrs_overlap,decide_eq_true_eq,last_byte_wrapped address short (by omega),
      last_byte full (stop ▸ bound)] at overlap
    exact .inr (by omega)

theorem alloc_addr_hangs {r : Region} (member : r ∈ lmb.available_mem.regions)
    (hangs : Hangs lmb.available_mem.regions addr size r) (flags : Nat) (out : Outside) :
    _lmb_alloc_addr lmb addr size flags out = lmb_reserve lmb addr size flags out := by
  set banks := lmb.available_mem.regions
  have some_size := request.some_size
  have short := request.short
  have address := request.address
  have apart := listed.canonical.1.1
  have full := apart.full r member
  have bound := (listed.available r member).2
  have stop : r.stop = r.base+r.size := rfl
  rw [_lmb_alloc_addr]
  cases found : lmb_overlap_checks banks addr size LMB_NOOVERWRITE true with
  | none =>
    have misses := findIdx?_eq_none_iff.mp found r member
    simp only [true_or,and_true,decide_eq_false_iff_not] at misses
    unfold Hangs at hangs
    by_cases fits : addr+size ≤ 2^64
    · rw [if_pos fits] at hangs
      rw [overlap_in_space some_size fits full bound] at misses
      omega
    · rw [if_neg fits] at hangs
      simp only [lmb_addrs_overlap,decide_eq_true_eq,last_byte_wrapped address short (by omega),
        last_byte full (stop ▸ bound)] at misses
      omega
  | some i =>
    obtain ⟨among,overlap⟩ := overlap_checks_some found
    have fullT := apart.full _ among
    have boundT := (listed.available _ among).2
    have stopT : (rgn banks i).stop =
      (rgn banks i).base+(rgn banks i).size := rfl
    simp only
    rw [if_pos]
    unfold Hangs at hangs
    by_cases fits : addr+size ≤ 2^64
    · rw [if_pos fits] at hangs
      obtain ⟨behind,inside,ends,clear⟩ := hangs
      rw [overlap_in_space some_size fits fullT boundT] at overlap
      have apart_from := clear _ among
      obtain same : rgn banks i = r :=
        @apart_unique _ _ apart _ _ among member (rgn banks i).base (by omega) (by omega)
      have byte := @overlap_in_space r.base r.size ⟨addr+size-1,1,0⟩ full bound Nat.one_pos (by simp only [Interval.stop]; omega)
      rw [last_byte some_size fits,same,byte]
      simp only [Interval.stop]
      omega
    · rw [if_neg fits] at hangs
      simp only [lmb_addrs_overlap,decide_eq_true_eq,last_byte_wrapped address short (by omega),
        last_byte fullT (stopT ▸ boundT)] at overlap
      have same : rgn banks i = r :=
        @apart_unique _ _ apart _ _ among member (addr+size-1-2^64) (by omega) (by omega)
      have byte := @overlap_in_space r.base r.size ⟨addr+size-1-2^64,1,0⟩ full bound Nat.one_pos
        (by simp only [Interval.stop]; omega)
      rw [last_byte_wrapped address short (by omega),same,byte]
      simp only [Interval.stop]
      omega

theorem addr_trustworthy_iff (flags : Nat) (out : Outside) :
    Trustworthy lmb .addr align addr size flags out ↔ Reliable lmb .addr align addr size flags out := by
  have some_size := request.some_size
  have called : lmb_alloc_mem lmb .addr align addr size flags out =
      some ((_lmb_alloc_addr lmb addr size flags out).1,addr,(_lmb_alloc_addr lmb addr size flags out).2) := by
    unfold lmb_alloc_mem
    rw [if_neg (by omega)]
  unfold Trustworthy Reliable
  rw [called]
  simp only [if_true]
  constructor
  · intro trust r member hangs succeeds
    have called := alloc_addr_hangs listed request member hangs flags out
    obtain ⟨s,among,low,high⟩ := trust addr _ (by rw [called,succeeds])
    have bound := (listed.available s among).2
    unfold Hangs at hangs
    rw [if_pos (by omega)] at hangs
    have apart_from := hangs.2.2.2 s among
    omega
  · intro reliable a after returns
    have success : (_lmb_alloc_addr lmb addr size flags out).1 = 0 := (Prod.mk.inj (some_inj.mp returns)).1
    rw [_lmb_alloc_addr] at success
    cases found : lmb_overlap_checks lmb.available_mem.regions addr size LMB_NOOVERWRITE true with
    | none => simp [found,EFAULT] at success
    | some i =>
      simp only [found] at success
      obtain ⟨member,_⟩ := overlap_checks_some found
      by_cases ends : lmb_addrs_overlap (rgn lmb.available_mem.regions i).base (rgn lmb.available_mem.regions i).size
          (sub64 (add64 addr size) 1) 1 = true
      · rw [if_pos ends] at success
        rcases alloc_addr_bank listed request found ends with inside | hangs
        · exact ⟨_,member,inside⟩
        · exact absurd success (reliable _ member hangs)
      · rw [if_neg ends] at success
        simp [EINVAL] at success

/-- What is returned can be relied on in exactly these cases. -/
theorem alloc_trustworthy_iff (type : MemType) (flags : Nat) (out : Outside) :
    Trustworthy lmb type align addr size flags out ↔ Reliable lmb type align addr size flags out := by
  by_cases named : type = .addr
  · subst named
    exact addr_trustworthy_iff listed request flags out
  · exact search_trustworthy_iff listed request named flags out

end soundness

/-- The request is met at the top of the bank, above the reservation. -/
theorem alloc_above_trustworthy : Trustworthy one_reservation .max 8 64 8 0 ⟨true,true⟩ := by
  refine (alloc_trustworthy_iff one_reservation_listed ⟨by decide,by decide,⟨3,by decide⟩,by decide⟩ .max 0 _).mpr ?_
  rw [Reliable,if_neg (by decide)]
  rintro b ⟨i,r,at_i,best,_⟩
  have member := List.mem_of_getElem? at_i
  obtain ⟨start,starts,_,_,_,le,_,_⟩ := best.1
  have low : start = 56 := by
    obtain rfl : r = ⟨16,48,0⟩ := by simpa [one_reservation] using member
    exact (Option.some_inj.mp starts).symm
  have clear : Clear one_reservation.used_mem.regions b (b+8) := by
    obtain ⟨_,_,_,_,_,_,_,checked⟩ := best.1
    exact (checks_none (by decide) (by omega) one_reservation_listed.canonical.2.1 one_reservation_listed.used).mp checked
  have placed : Placed one_reservation.used_mem.regions :=
    ⟨one_reservation_listed.canonical.2.1,by simp [Bounded,one_reservation,Interval.stop]⟩
  have returns := @add_region_flags_returns _ b 8 0 placed ⟨by decide,by omega⟩ (clear_plain clear) true
  rw [if_pos (returns.resolve_right (by simp [one_reservation]))]
  exact fun _ => .inr (by decide)

/-- A limit below the size: the address lies outside the bank. -/
theorem alloc_small_limit : ¬ ∀ (lmb : Lmb) (type : MemType) (align addr size flags : Nat) (out : Outside), Listed lmb →
    Request size align addr → Trustworthy lmb type align addr size flags out := by
  intro claim
  have trust := claim one_reservation .max 1 17 18 0 ⟨true,true⟩ one_reservation_listed
    ⟨by decide,by decide,⟨0,by decide⟩,by decide⟩
  have answer : (lmb_alloc_mem one_reservation .max 1 17 18 0 ⟨true,true⟩).map (fun result => (result.1,result.2.1)) =
      some (0,2^64-1) := by
    decide +kernel
  obtain ⟨⟨ret,a,after⟩,returns,same⟩ := Option.map_eq_some_iff.mp answer
  obtain ⟨rfl,rfl⟩ := Prod.mk.inj same
  obtain ⟨_,fits,_⟩ := trust _ after returns
  exact absurd fits (by decide)

/-- All bytes that are counted are memory and none of them is reserved. -/
def CountsFree (lmb : Lmb) (addr : Nat) : Prop :=
  ∀ x, addr ≤ x → x < addr+lmb_get_free_size lmb addr →
    (∃ r ∈ lmb.available_mem.regions, r.base ≤ x ∧ x < r.stop) ∧ ∀ r ∈ lmb.used_mem.regions, ¬ (r.base ≤ x ∧ x < r.stop)

/-- Where the count ends: at the next reservation, or at the end of the last bank. Of the whole
    address space nothing is counted. -/
def count_end (lmb : Lmb) (addr : Nat) : Nat :=
  let last := rgn lmb.available_mem.regions (lmb.available_mem.regions.length-1)
  match lmb.used_mem.regions.find? (fun r => addr < r.base) with
  | some r => r.base
  | none => addr+(last.stop-addr)%2^64

/-- The reservation that holds the address does not reach the end of the address space; and where
    none does, each bank that ends before the end of the count is followed by another one. -/
def Countable (lmb : Lmb) (addr : Nat) : Prop :=
  (∃ r ∈ lmb.available_mem.regions, r.base ≤ addr ∧ addr < r.stop) →
    (∀ r ∈ lmb.used_mem.regions, r.base ≤ addr ∧ addr < r.stop → r.stop ≠ 2^64) ∧
    ((∀ r ∈ lmb.used_mem.regions, ¬ (r.base ≤ addr ∧ addr < r.stop)) →
      ∀ r ∈ lmb.available_mem.regions, addr < r.stop → r.stop < count_end lmb addr →
        ∃ s ∈ lmb.available_mem.regions, s.base = r.stop)

theorem free_until_eq {used : List Region} (apart : Apart used) (space : InSpace used) (addr bank_end : Nat) :
    free_until addr bank_end used =
      if ∃ r ∈ used, (r.base ≤ addr ∧ addr < r.stop) ∧ r.stop < 2^64 then 0
      else (used.find? fun r => addr < r.base).elim (sub64 bank_end addr) (fun r => r.base-addr) := by
  induction used with
  | nil => simp [free_until]
  | cons r rest ih =>
    obtain ⟨full,before,later⟩ := apart_cons.mp apart
    obtain ⟨short,bound⟩ := space r mem_cons_self
    have stop : r.stop = r.base+r.size := rfl
    rw [free_until]
    by_cases ahead : addr < r.base
    · have held : ¬ ∃ s ∈ r :: rest, (s.base ≤ addr ∧ addr < s.stop) ∧ s.stop < 2^64 := by
        rintro ⟨s,member,⟨low,_⟩,_⟩
        rcases mem_cons.mp member with rfl | behind
        · omega
        · have := before s behind
          omega
      rw [if_pos ahead,if_neg held,find?_cons_of_pos (by simpa using ahead)]
      exact sub64_eq (by omega) (by omega)
    · rw [if_neg ahead,find?_cons_of_neg (by simpa using ahead)]
      by_cases inside : addr < add64 r.base r.size
      · have top : r.stop < 2^64 ∧ addr < r.stop := by
          unfold add64 at inside
          omega
        rw [if_pos inside,if_pos ⟨r,mem_cons_self,⟨by omega,top.2⟩,top.1⟩]
      · have passed : ¬ ((r.base ≤ addr ∧ addr < r.stop) ∧ r.stop < 2^64) := by
          unfold add64 at inside
          omega
        rw [if_neg inside,ih later fun s member => space s (mem_cons_of_mem _ member)]
        simp only [mem_cons,exists_eq_or_imp,passed,false_or]

theorem stop_le_last {lst : List Region} (apart : Apart lst) {r : Region} (member : r ∈ lst) :
    rgn lst (lst.length-1) ∈ lst ∧ r.stop ≤ (rgn lst (lst.length-1)).stop := by
  obtain ⟨front,last,rfl⟩ := (eq_nil_or_concat' lst).resolve_left (ne_nil_of_mem member)
  have at_end : rgn (front ++ [last]) ((front ++ [last]).length-1) = last := by
    simpa using rgn_at front last []
  rw [at_end]
  refine ⟨by simp,?_⟩
  rcases mem_append.mp member with early | final
  · have stop : last.stop = last.base+last.size := rfl
    have := (apart_append.mp apart).2.2 r early last (by simp)
    omega
  · rw [mem_singleton.mp final]

section counting
variable {lmb : Lmb} (listed : Listed lmb) {addr : Nat}
include listed

theorem free_size_eq {bank : Region} (member : bank ∈ lmb.available_mem.regions) (inside : bank.base ≤ addr ∧ addr < bank.stop) :
    lmb_get_free_size lmb addr =
      (if ∃ r ∈ lmb.used_mem.regions, (r.base ≤ addr ∧ addr < r.stop) ∧ r.stop < 2^64 then 0 else count_end lmb addr-addr) ∧
      (count_end lmb addr ≤ addr → addr = 0) := by
  obtain ⟨among,further⟩ := stop_le_last listed.canonical.1.1 member
  have bound := (listed.available _ among).2
  have bank_bound := (listed.available _ member).2
  have met : lmb_overlap_checks lmb.available_mem.regions addr 1 LMB_NOOVERWRITE true ≠ none := by
    intro none_
    have clear := (checks_none Nat.one_pos (by omega) listed.canonical.1.1 listed.available).mp none_ bank member
    omega
  obtain ⟨i,found⟩ := ne_none_iff_exists'.mp met
  rw [lmb_get_free_size,found]
  simp only
  rw [free_until_eq listed.canonical.2.1 listed.used,count_end]
  generalize rgn lmb.available_mem.regions (lmb.available_mem.regions.length-1) = last at *
  have last_end : sub64 (add64 last.base last.size) addr = (last.stop-addr)%2^64 := by
    have stop : last.stop = last.base+last.size := rfl
    unfold sub64 add64
    omega
  cases next : lmb.used_mem.regions.find? fun r => addr < r.base with
  | none =>
    simp only [elim_none,last_end]
    exact ⟨by rw [Nat.add_sub_cancel_left],by omega⟩
  | some r =>
    have behind := find?_some next
    simp only [decide_eq_true_eq] at behind
    exact ⟨rfl,by simp only; omega⟩

theorem count_clear (unheld : ∀ r ∈ lmb.used_mem.regions, ¬ (r.base ≤ addr ∧ addr < r.stop)) {x : Nat} (low : addr ≤ x)
    (high : x < count_end lmb addr) : ∀ r ∈ lmb.used_mem.regions, ¬ (r.base ≤ x ∧ x < r.stop) := by
  rintro r member ⟨below,above⟩
  have ahead : addr < r.base := by
    by_contra behind
    exact unheld r member ⟨by omega,by omega⟩
  rw [count_end] at high
  cases next : lmb.used_mem.regions.find? fun r => addr < r.base with
  | none => exact absurd ahead (by simpa using find?_eq_none.mp next r member)
  | some first =>
    simp only [next] at high
    obtain ⟨_,front,back,split,passed⟩ := find?_eq_some_iff_append.mp next
    have apart := listed.canonical.2.1
    rw [split] at member apart
    obtain ⟨_,rest,_⟩ := apart_append.mp apart
    obtain ⟨_,behind,_⟩ := apart_cons.mp rest
    have stop : first.stop = first.base+first.size := rfl
    rcases mem_append.mp member with early | late
    · have := passed r early
      simp at this
      omega
    · rcases mem_cons.mp late with rfl | later
      · omega
      · have := behind r later
        omega

/-- What is counted is free in exactly these cases. -/
theorem free_size_sound_iff (address : addr < 2^64) : CountsFree lmb addr ↔ Countable lmb addr := by
  unfold CountsFree Countable
  by_cases inMemory : ∃ r ∈ lmb.available_mem.regions, r.base ≤ addr ∧ addr < r.stop
  · obtain ⟨bank,member,inside⟩ := inMemory
    obtain ⟨counted,wraps⟩ := free_size_eq listed member inside
    rw [counted]
    by_cases held : ∃ r ∈ lmb.used_mem.regions, (r.base ≤ addr ∧ addr < r.stop) ∧ r.stop < 2^64
    · rw [if_pos held]
      obtain ⟨r,among,holds,below⟩ := held
      refine ⟨fun _ _ => ⟨fun s amongS holdsS => ?_,fun unheld => absurd holds (unheld r among)⟩,fun _ x low high => by omega⟩
      obtain rfl := apart_unique listed.canonical.2.1 among amongS holds holdsS
      omega
    · rw [if_neg held]
      by_cases ahead : addr < count_end lmb addr
      · constructor
        · intro counts _
          have unheld : ∀ r ∈ lmb.used_mem.regions, ¬ (r.base ≤ addr ∧ addr < r.stop) := (counts addr (Nat.le_refl _) (by omega)).2
          refine ⟨fun r among holds => absurd holds (unheld r among),fun _ r among above before => ?_⟩
          obtain ⟨⟨s,amongS,low,high⟩,_⟩ := counts r.stop (by omega) (by omega)
          refine ⟨s,amongS,?_⟩
          by_contra different
          have full := listed.canonical.1.1.full r among
          have stop : r.stop = r.base+r.size := rfl
          obtain rfl := @apart_unique _ _ listed.canonical.1.1 _ _ among amongS (r.stop-1) (by omega) (by omega)
          omega
        · intro countable x low high
          obtain ⟨top,followed⟩ := countable ⟨bank,member,inside⟩
          have unheld : ∀ r ∈ lmb.used_mem.regions, ¬ (r.base ≤ addr ∧ addr < r.stop) := by
            intro r among holds
            have below := (listed.used r among).2
            exact held ⟨r,among,holds,by have := top r among holds; omega⟩
          refine ⟨?_,count_clear listed unheld low (by omega)⟩
          -- The memory goes on from one byte to the next, in the same bank or in the one that follows it.
          induction x, low using Nat.le_induction with
          | base => exact ⟨bank,member,inside⟩
          | succ x low ih =>
            obtain ⟨r,among,starts_below,_⟩ := ih (by omega)
            by_cases same : x+1 < r.stop
            · exact ⟨r,among,by omega,same⟩
            · obtain ⟨s,amongS,starts⟩ := followed unheld r among (by omega) (by omega)
              have full := listed.canonical.1.1.full s amongS
              have stop : s.stop = s.base+s.size := rfl
              exact ⟨s,amongS,by omega,by omega⟩
      · -- nothing is counted
        have zero := wraps (by omega)
        refine ⟨fun _ _ => ⟨fun r among holds full => ?_,fun _ r _ above before => by omega⟩,fun _ x low high => by omega⟩
        have stop : r.stop = r.base+r.size := rfl
        have short := (listed.used r among).1
        omega
  · refine ⟨fun _ is => absurd is inMemory,fun _ x low high => ?_⟩
    have clear : Clear lmb.available_mem.regions addr (addr+1) := by
      intro r among
      by_contra meets
      exact inMemory ⟨r,among,by omega,by omega⟩
    have none_ := (checks_none Nat.one_pos (by omega) listed.canonical.1.1 listed.available).mpr clear
    rw [lmb_get_free_size,none_] at high
    simp only at high
    omega

end counting

/-- Up to the reservation in the middle of the bank. -/
theorem free_size_to_reservation : CountsFree one_reservation 16 := by
  refine (free_size_sound_iff one_reservation_listed (by decide)).mpr ?_
  rintro ⟨r,member,_⟩
  have ends : count_end one_reservation 16 = 40 := by decide
  refine ⟨?_,fun _ s among above before => ?_⟩
  · simp [one_reservation,Interval.stop]
  · obtain rfl : s = ⟨16,48,0⟩ := by simpa [one_reservation] using among
    rw [ends] at before
    exact absurd before (by decide)

def two_banks : Lmb := ⟨⟨[⟨16,16,0⟩,⟨64,16,0⟩],4,false⟩,⟨[],4,false⟩⟩

theorem two_banks_listed : Listed two_banks where
  canonical := ⟨⟨⟨by decide,by simp [two_banks,Interval.stop]⟩,by simp [Merged,two_banks,Interval.stop]⟩,
    ⟨by decide,by simp [two_banks]⟩,by simp [Merged,two_banks]⟩
  available := by simp [InSpace,two_banks,Interval.stop]
  used := by simp [InSpace,two_banks]

/-- The gap is counted. -/
theorem free_size_over_gap : ¬ ∀ (lmb : Lmb) (addr : Nat), Listed lmb → addr < 2^64 → CountsFree lmb addr := by
  intro claim
  have counted : lmb_get_free_size two_banks 16 = 64 := by decide
  obtain ⟨⟨r,member,low,high⟩,_⟩ := claim two_banks 16 two_banks_listed (by decide) 32 (by decide) (by rw [counted]; decide)
  have either : r = ⟨16,16,0⟩ ∨ r = ⟨64,16,0⟩ := by simpa [two_banks] using member
  rcases either with rfl | rfl
  · exact absurd high (by decide)
  · exact absurd low (by decide)

end UBoot.Lmb
