import UBoot.LmbLists
import UBoot.Runs

/-!
Runs of the memory block calls from empty lists. Every call that names its range
properly keeps both lists apart, finds its address and returns; whether it
keeps neighbours with one set of flags from touching, and whether a range that
it reports as reserved is recorded, depends on what stands around the range
(`Mergeable`, `Recordable`).
-/
namespace UBoot.Lmb
open UBoot.Intervals UBoot.Runs List Option

def Clear (lst : List Region) (base stop : Nat) : Prop := ∀ r ∈ lst, r.stop ≤ base ∨ stop ≤ r.base

section checks
variable {lst : List Region} {base size flags : Nat}

theorem overlap_checks_some {alloc : Bool} {i : Nat} (found : lmb_overlap_checks lst base size flags alloc = some i) :
    rgn lst i ∈ lst ∧ lmb_addrs_overlap base size (rgn lst i).base (rgn lst i).size = true := by
  obtain ⟨before,r,after,rfl,rfl,holds,_⟩ := findIdx?_split found
  rw [rgn_at]
  simp only [decide_eq_true_eq] at holds
  exact ⟨by simp,holds.1⟩

variable (apart : Apart lst) (bounded : Bounded lst) (some_size : 0 < size) (fits : base+size < 2^64)
include apart bounded some_size fits

/-- An allocation is let through when its range is clear. -/
theorem overlap_checks_clear (none_ : lmb_overlap_checks lst base size flags true = none) :
    Clear lst base (base+size) := by
  intro r member
  have passes := findIdx?_eq_none_iff.mp none_ r member
  rw [overlap_eq some_size fits (apart.full r member) (bounded r member)] at passes
  simp at passes
  omega

/-- A reservation is let through when neither its range nor the regions that
    it overlaps have flags. -/
theorem overlap_checks_plain (none_ : lmb_overlap_checks lst base size flags false = none) :
    ∀ r ∈ lst, r.base < base+size → base < r.stop → r.label = LMB_NONE ∧ flags = LMB_NONE := by
  intro r member under above
  have passes := findIdx?_eq_none_iff.mp none_ r member
  rw [overlap_eq some_size fits (apart.full r member) (bounded r member)] at passes
  simp [under,above] at passes
  exact ⟨by rw [← passes.2]; exact passes.1,passes.1⟩

end checks

theorem align_down_le (x align : Nat) : align_down x align ≤ x := Nat.and_le_left

section search
variable {used : List Region} {size : Nat} (align : Nat) (apart : Apart used) (bounded : Bounded used) (some_size : 0 < size)
include apart bounded some_size

theorem alloc_below_spec (lmbbase : Nat) {rounds base : Nat} (enough : base ≤ rounds) (fits : base+size < 2^64) :
    ∃ found, alloc_below used lmbbase size align rounds base = some found ∧
      ∀ b, found = some b → lmbbase ≤ b ∧ b ≤ base ∧ Clear used b (b+size) := by
  induction rounds generalizing base with
  | zero =>
    refine ⟨none,?_,by simp⟩
    rw [alloc_below,if_neg (by omega)]
  | succ rounds ih =>
    rw [alloc_below]
    by_cases inside : base ≠ 0 ∧ lmbbase ≤ base
    · rw [if_pos inside]
      cases checked : lmb_overlap_checks used base size LMB_NOOVERWRITE true with
      | none =>
        refine ⟨some base,rfl,?_⟩
        intro b same
        cases same
        exact ⟨inside.2,le_rfl,overlap_checks_clear apart bounded some_size fits checked⟩
      | some i =>
        obtain ⟨member,overlap⟩ := overlap_checks_some checked
        have bound := bounded _ member
        rw [overlap_eq some_size fits (apart.full _ member) bound,decide_eq_true_eq] at overlap
        simp only
        by_cases small : (rgn used i).base < size
        · rw [if_pos small]
          exact ⟨none,rfl,by simp⟩
        rw [if_neg small]
        have base_bound : (rgn used i).base < 2^64 := by simp only [Interval.stop] at bound; omega
        have lower := align_down_le (sub64 (rgn used i).base size) align
        rw [sub64_eq (by omega) base_bound] at lower ⊢
        have fewer : align_down ((rgn used i).base-size) align ≤ rounds := by omega
        obtain ⟨found,ends,spec⟩ := ih fewer (by omega)
        refine ⟨found,ends,?_⟩
        intro b same
        obtain ⟨low,high,clear⟩ := spec b same
        exact ⟨low,by omega,clear⟩
    · rw [if_neg inside]
      exact ⟨none,rfl,by simp⟩

/-- A limit that is not smaller than the size, or that no region of the size
    lies below. -/
def LimitHolds (available : List Region) (max_addr size : Nat) : Prop :=
  max_addr = LMB_ALLOC_ANYWHERE ∨ size ≤ max_addr ∨ ∀ r ∈ available, r.size < size ∨ max_addr ≤ r.base

omit align apart bounded some_size in
theorem alloc_start_le {align : Nat} {r : Region} {max_addr start : Nat} (bound : r.stop < 2^64) (limit : LimitHolds [r] max_addr size)
    (starts : alloc_start r size align max_addr = some start) : start+size ≤ r.stop := by
  have whole : add64 r.base r.size = r.stop := add64_eq bound
  have stop : r.stop = r.base+r.size := rfl
  rw [alloc_start,whole] at starts
  by_cases small : r.size < size
  · simp [small] at starts
  rw [if_neg small] at starts
  by_cases anywhere : max_addr = LMB_ALLOC_ANYWHERE
  · rw [if_pos anywhere,sub64_eq (by omega) bound,some_inj] at starts
    have lower := align_down_le (r.stop-size) align
    omega
  rw [if_neg anywhere] at starts
  by_cases below : r.base < max_addr
  · have proper : size ≤ max_addr := by
      rcases limit with zero | enough | none_below
      · exact absurd zero anywhere
      · exact enough
      · have := none_below r (by simp)
        omega
    simp only [if_pos below,if_neg (show ¬ r.stop < r.base by omega)] at starts
    rw [sub64_eq (by omega) (by omega),some_inj] at starts
    have lower := align_down_le (min r.stop max_addr-size) align
    omega
  · simp [below] at starts

/-- The search ends. The range that it finds lies in a region of the memory and
    is clear. -/
theorem alloc_search_spec {available : List Region} (memory : Bounded available) {max_addr : Nat}
    (limit : LimitHolds available max_addr size) :
    ∃ found, alloc_search used size align max_addr available = some found ∧
      ∀ b, found = some b → Clear used b (b+size) ∧ ∃ r ∈ available, r.base ≤ b ∧ b+size ≤ r.stop := by
  induction available with
  | nil => exact ⟨none,rfl,by simp⟩
  | cons r rest ih =>
    have first : LimitHolds [r] max_addr size := limit.imp_right (Or.imp_right fun below s member =>
      below s (by rw [mem_singleton.mp member]; exact mem_cons_self))
    have others : LimitHolds rest max_addr size := limit.imp_right (Or.imp_right fun below s member =>
      below s (mem_cons_of_mem _ member))
    obtain ⟨later,searched,laterSpec⟩ := ih (fun s member => memory s (mem_cons_of_mem _ member)) others
    have on : ∀ b, later = some b → Clear used b (b+size) ∧ ∃ s ∈ r :: rest, s.base ≤ b ∧ b+size ≤ s.stop := by
      intro b same
      obtain ⟨clear,s,member,within⟩ := laterSpec b same
      exact ⟨clear,s,mem_cons_of_mem _ member,within⟩
    rw [alloc_search]
    cases starts : alloc_start r size align max_addr with
    | none => exact ⟨later,searched,on⟩
    | some start =>
      have bound := memory r mem_cons_self
      have inside := alloc_start_le bound first starts
      obtain ⟨found,ends,spec⟩ := alloc_below_spec align apart bounded some_size r.base
        (le_refl start) (by omega)
      simp only [ends]
      cases found with
      | none => exact ⟨later,searched,on⟩
      | some base =>
        refine ⟨some base,rfl,?_⟩
        intro b same
        cases same
        obtain ⟨low,high,clear⟩ := spec base rfl
        exact ⟨clear,r,mem_cons_self,low,by omega⟩

end search

theorem alloc_below_aligned {used : List Region} {lmbbase size align rounds base found : Nat}
    (aligned : ∃ x, base = align_down x align) (finds : alloc_below used lmbbase size align rounds base = some (some found)) :
    ∃ x, found = align_down x align := by
  induction rounds generalizing base with
  | zero =>
    rw [alloc_below] at finds
    split_ifs at finds
    · cases checked : lmb_overlap_checks used base size LMB_NOOVERWRITE true with
      | none =>
        simp only [checked,Option.some.injEq] at finds
        rwa [← finds]
      | some i =>
        simp only [checked] at finds
        split_ifs at finds
        simp at finds
    · simp at finds
  | succ rounds ih =>
    rw [alloc_below] at finds
    split_ifs at finds
    · cases checked : lmb_overlap_checks used base size LMB_NOOVERWRITE true with
      | none =>
        simp only [checked,Option.some.injEq] at finds
        rwa [← finds]
      | some i =>
        simp only [checked] at finds
        split_ifs at finds
        · simp at finds
        · exact ih ⟨_,rfl⟩ finds
    · simp at finds

theorem alloc_start_aligned {r : Region} {size align max_addr start : Nat}
    (starts : alloc_start r size align max_addr = some start) : ∃ x, start = align_down x align := by
  rw [alloc_start] at starts
  split_ifs at starts
  · exact ⟨_,(Option.some.inj starts).symm⟩
  · exact ⟨_,(Option.some.inj starts).symm⟩

theorem alloc_search_aligned {used available : List Region} {size align max_addr found : Nat}
    (finds : alloc_search used size align max_addr available = some (some found)) : ∃ x, found = align_down x align := by
  induction available with
  | nil => simp [alloc_search] at finds
  | cons r rest ih =>
    rw [alloc_search] at finds
    cases starts : alloc_start r size align max_addr with
    | none =>
      simp only [starts] at finds
      exact ih finds
    | some start =>
      simp only [starts] at finds
      cases below : alloc_below used r.base size align start start with
      | none => simp [below] at finds
      | some result =>
        cases result with
        | none =>
          simp only [below] at finds
          exact ih finds
        | some base =>
          simp only [below,Option.some.injEq] at finds
          rw [finds] at below
          exact alloc_below_aligned (alloc_start_aligned starts) below

/-- The range is clear, and is dropped by what stands behind it. -/
def Dropped (lst : List Region) (base size flags : Nat) : Prop :=
  ∃ before inside after, Cut lst before inside after base (base+size) ∧ Drops before inside after base (base+size) flags

def Proper (base size : Nat) : Prop := 0 < size ∧ base+size < 2^64

/-- Regions apart and below 2^64. -/
structure Placed (lst : List Region) : Prop where
  apart : Apart lst
  bounded : Bounded lst

section addition
variable {lst : Alist} {base size flags : Nat} (placed : Placed lst.regions) (proper : Proper base size)
  (plain : ∀ r ∈ lst.regions, r.base < base+size → base < r.stop → r.label = LMB_NONE ∧ flags = LMB_NONE)
include placed proper plain

variable {e : Event} (memory : Bool)

theorem add_region_flags_cases :
    (lst.fail = true ∧ lmb_add_region_flags lst base size flags memory = (-1,lst)) ∨
      lst.fail = false ∧ ∃ before inside after, Cut lst.regions before inside after base (base+size) ∧
        Added lst before inside after base (base+size) flags memory (lmb_add_region_flags lst base size flags memory) := by
  cases failed : lst.fail with
  | true => exact .inl ⟨rfl,by rw [lmb_add_region_flags,if_pos failed]⟩
  | false =>
    obtain ⟨before,inside,after,split,low,across,high⟩ := cut_at placed.apart base (base+size)
    have cut : Cut lst.regions before inside after base (base+size) := ⟨split,low,across,high⟩
    refine .inr ⟨rfl,before,inside,after,cut,add_region_flags_spec failed placed.apart placed.bounded proper.1 proper.2 cut ?_ memory⟩
    intro r member
    obtain ⟨under,above⟩ := across r member
    exact plain r (by rw [split]; simp [member]) under above

theorem add_region_flags_placed :
    Placed (lmb_add_region_flags lst base size flags memory).2.regions := by
  obtain ⟨some_size,fits⟩ := proper
  rcases add_region_flags_cases placed ⟨some_size,fits⟩ plain memory with ⟨_,same⟩ | ⟨_,before,inside,after,cut,added⟩
  · rw [same]
    exact placed
  · obtain ⟨apart,bounded⟩ := added_keeps placed.apart placed.bounded (by omega) fits added
    exact ⟨apart,bounded⟩

theorem add_region_flags_merged (merged : Merged lst.regions)
    (apartEnds : lst.fail = false → ¬ Bridges lst.regions base (base+size) flags) (memory : Bool) :
    Merged (lmb_add_region_flags lst base size flags memory).2.regions := by
  obtain ⟨some_size,fits⟩ := proper
  rcases add_region_flags_cases placed ⟨some_size,fits⟩ plain memory with ⟨_,same⟩ | ⟨sound,before,inside,after,cut,added⟩
  · rw [same]
    exact merged
  · exact added_merged cut.split merged (by omega) (apartEnds sound) added

theorem add_region_flags_value (recorded : ¬ Dropped lst.regions base size flags) (memory : Bool)
    (success : (lmb_add_region_flags lst base size flags memory).1 = 0) :
    value (lmb_add_region_flags lst base size flags memory).2.regions =
      painted (value lst.regions) base (base+size) flags := by
  obtain ⟨some_size,fits⟩ := proper
  rcases add_region_flags_cases placed ⟨some_size,fits⟩ plain memory with ⟨_,same⟩ | ⟨_,before,inside,after,cut,added⟩
  · rw [same] at success
    simp at success
  · exact added_value placed.apart (by omega) (fun drops => recorded ⟨before,inside,after,cut,drops⟩) added success

theorem add_region_flags_within {x : Nat}
    (listed : value (lmb_add_region_flags lst base size flags memory).2.regions x ≠ none) :
    value lst.regions x ≠ none ∨ base ≤ x ∧ x < base+size := by
  obtain ⟨some_size,fits⟩ := proper
  rcases add_region_flags_cases placed ⟨some_size,fits⟩ plain memory with ⟨_,same⟩ | ⟨_,before,inside,after,cut,added⟩
  · rw [same] at listed
    exact .inl listed
  · exact added_within placed.apart (by omega) added listed

theorem add_region_flags_failed (failed : (lmb_add_region_flags lst base size flags memory).1 ≠ 0) :
    (lmb_add_region_flags lst base size flags memory).2.regions = lst.regions := by
  rcases add_region_flags_cases placed proper plain memory with ⟨_,same⟩ | ⟨_,before,inside,after,cut,added⟩
  · rw [same]
  · cases resultIs : lmb_add_region_flags lst base size flags memory with
    | mk ret new_lst =>
    rw [resultIs] at added failed
    cases added with
    | drawn regions alloc draws | dropped regions drops apart bounded same => exact absurd rfl failed
    | full none_ full => rfl

/-- After an addition one region holds the range, or the list stands for what it
    stood for before. -/
theorem add_region_flags_held :
    (∃ r ∈ (lmb_add_region_flags lst base size flags memory).2.regions, r.base ≤ base ∧ base+size ≤ r.stop) ∨
      value (lmb_add_region_flags lst base size flags memory).2.regions = value lst.regions := by
  obtain ⟨some_size,fits⟩ := proper
  rcases add_region_flags_cases placed ⟨some_size,fits⟩ plain memory with ⟨_,same⟩ | ⟨_,before,inside,after,cut,added⟩
  · rw [same]
    exact .inr rfl
  · cases resultIs : lmb_add_region_flags lst base size flags memory with
    | mk ret new_lst =>
    rw [resultIs] at added
    cases added with
    | drawn regions alloc draws => exact .inl (drawn_holds (by omega) draws)
    | dropped regions drops apart bounded same => exact .inr same
    | full none_ full => exact .inr rfl

theorem add_region_flags_labels {x label : Nat}
    (new : value (lmb_add_region_flags lst base size flags memory).2.regions x = some label) :
    value lst.regions x = some label ∨ label = flags := by
  obtain ⟨some_size,fits⟩ := proper
  rcases add_region_flags_cases placed ⟨some_size,fits⟩ plain memory with ⟨_,same⟩ | ⟨_,before,inside,after,cut,added⟩
  · rw [same] at new
    exact .inl new
  cases resultIs : lmb_add_region_flags lst base size flags memory with
  | mk ret new_lst =>
  rw [resultIs] at added new
  cases added with
  | drawn regions alloc draws =>
    rw [drawn_value placed.apart (by omega) draws,painted] at new
    split_ifs at new with inside
    · exact .inr (some_inj.mp new).symm
    · exact .inl new
  | dropped regions drops apart bounded same =>
    rw [← same]
    exact .inl new
  | full none_ full => exact .inl new

theorem add_region_flags_returns (memory : Bool) :
    (lmb_add_region_flags lst base size flags memory).1 = 0 ∨
      (lmb_add_region_flags lst base size flags memory).1 = -1 ∧
        (lst.fail = true ∨ memory = false ∧ lst.regions.length = lst.alloc) := by
  rcases add_region_flags_cases placed proper plain memory with ⟨failed,same⟩ | ⟨_,before,inside,after,cut,added⟩
  · exact .inr ⟨by rw [same],.inl failed⟩
  · rcases added_returns added with success | ⟨failure,full⟩
    · exact .inl success
    · exact .inr ⟨failure,.inr full⟩

end addition

inductive Call where
  | add (base size : Nat)
  | alloc (type : MemType) (align addr size flags : Nat)
  | free (base size : Nat)
  deriving DecidableEq, Repr

structure Event where
  call : Call
  out : Outside

/-- The return code of a call, `*addr` after it and the lists, if it returns. -/
def perform (lmb : Lmb) (e : Event) : Option (Int × Nat × Lmb) :=
  match e.call with
  | .add base size =>
    let (ret,lmb) := lmb_add lmb base size e.out
    some (ret,base,lmb)
  | .alloc type align addr size flags => lmb_alloc_mem lmb type align addr size flags e.out
  | .free base size =>
    let (ret,lmb) := lmb_free lmb base size e.out
    some (ret,base,lmb)

theorem perform_alloc (lmb : Lmb) (type : MemType) (align addr size flags : Nat) (out : Outside) :
    perform lmb ⟨.alloc type align addr size flags,out⟩ = lmb_alloc_mem lmb type align addr size flags out := rfl

def step (lmb : Lmb) (e : Event) : Lmb := ((perform lmb e).map fun result => result.2.2).getD lmb

structure Sound (lmb : Lmb) : Prop where
  available : Placed lmb.available_mem.regions
  used : Placed lmb.used_mem.regions
  unflagged : ∀ x flags, value lmb.available_mem.regions x = some flags → flags = LMB_NONE

/-- The requests whose ranges the calls handle: those of an addition end at an
    address, those of an allocation by address too, a limit is not below the
    size, and what is released does not wrap. -/
def Handled (lmb : Lmb) (e : Event) : Prop :=
  match e.call with
  | .add base size => Proper base size
  | .alloc .any _ _ _ _ => True
  | .alloc .max _ addr size _ => LimitHolds lmb.available_mem.regions addr size
  | .alloc .addr _ addr size _ => addr+size < 2^64
  | .free base size => base+size ≤ 2^64

/-- An allocation by address lies in the memory and gets past the check for
    reserved regions. -/
def Accepted (lmb : Lmb) (base size flags : Nat) : Prop :=
  (∃ i, lmb_overlap_checks lmb.available_mem.regions base size LMB_NOOVERWRITE true = some i ∧
    lmb_addrs_overlap (rgn lmb.available_mem.regions i).base (rgn lmb.available_mem.regions i).size
      (sub64 (add64 base size) 1) 1 = true) ∧
  lmb_overlap_checks lmb.used_mem.regions base size flags false = none

def Refusal (ret : Int) : Prop := ret = -EEXIST ∨ ret = -EFAULT ∨ ret = -EINVAL

inductive Outcome (lmb : Lmb) (e : Event) : Int × Nat × Lmb → Prop
  | idle (ret : Int) (addr : Nat) (zero : ret = 0 → ∃ type align addr flags, e.call = .alloc type align addr 0 flags) :
      Outcome lmb e (ret,addr,lmb)
  | added (base size : Nat) (is : e.call = .add base size) (proper : Proper base size) (ret : Int) (addr : Nat) :
      Outcome lmb e (ret,addr,{ lmb with
        available_mem := (lmb_add_region_flags lmb.available_mem base size LMB_NONE e.out.memory).2 })
  | reserved (type : MemType) (align addr size flags base : Nat) (is : e.call = .alloc type align addr size flags)
      (proper : Proper base size)
      (plain : ∀ r ∈ lmb.used_mem.regions, r.base < base+size → base < r.stop → r.label = LMB_NONE ∧ flags = LMB_NONE)
      (chosen : if type = .addr then base = addr ∧ Accepted lmb base size flags
        else Clear lmb.used_mem.regions base (base+size))
      (ret : Int) (addr' : Nat) (no_refusal : ret = 0 ∨ ret = -1)
      (success : ret = 0 → addr' = base ∧ (lmb_add_region_flags lmb.used_mem base size flags e.out.memory).1 = 0 ∨
        type ≠ .addr ∧ (lmb_add_region_flags lmb.used_mem base size flags e.out.memory).1 ≠ 0) :
      Outcome lmb e (ret,addr',{ lmb with
        used_mem := (lmb_add_region_flags lmb.used_mem base size flags e.out.memory).2 })
  | freed (base size : Nat) (is : e.call = .free base size) (fits : base+size ≤ 2^64) (ret : Int) (addr : Nat)
      (success : ret = 0 → (_lmb_free lmb.used_mem base size e.out.memory).1 = 0)
      (refused : Refusal ret → (_lmb_free lmb.used_mem base size e.out.memory).1 = ret) :
      Outcome lmb e (ret,addr,{ lmb with used_mem := (_lmb_free lmb.used_mem base size e.out.memory).2 })

theorem lmb_map_update_notify_code (out : Outside) : lmb_map_update_notify out = 0 ∨ lmb_map_update_notify out = -1 := by
  cases told : out.notified with
  | true => exact .inl (by simp [lmb_map_update_notify,told])
  | false => exact .inr (by simp [lmb_map_update_notify,told])

theorem clear_plain {lst : List Region} {base stop flags : Nat} (clear : Clear lst base stop) :
    ∀ r ∈ lst, r.base < stop → base < r.stop → r.label = LMB_NONE ∧ flags = LMB_NONE := by
  intro r member under above
  have := clear r member
  omega

section outcome
variable {lmb : Lmb} (sound : Sound lmb) (out : Outside)
include sound

theorem lmb_alloc_addr_outcome {align addr size flags : Nat} (proper : Proper addr size) :
    Outcome lmb ⟨.alloc .addr align addr size flags,out⟩
      ((_lmb_alloc_addr lmb addr size flags out).1,addr,(_lmb_alloc_addr lmb addr size flags out).2) := by
  rw [_lmb_alloc_addr]
  cases located : lmb_overlap_checks lmb.available_mem.regions addr size LMB_NOOVERWRITE true with
  | none => exact .idle _ _ (by simp [EFAULT])
  | some i =>
    simp only
    cases ends : lmb_addrs_overlap (rgn lmb.available_mem.regions i).base (rgn lmb.available_mem.regions i).size
        (sub64 (add64 addr size) 1) 1 with
    | false => exact .idle _ _ (by simp [EINVAL])
    | true =>
      rw [if_pos rfl,lmb_reserve]
      cases checked : lmb_overlap_checks lmb.used_mem.regions addr size flags false with
      | some j => exact .idle _ _ (by simp [EEXIST])
      | none =>
        have plain := overlap_checks_plain sound.used.apart sound.used.bounded proper.1 proper.2 checked
        have codes := add_region_flags_returns sound.used proper plain out.memory
        refine .reserved .addr align addr size flags addr rfl proper plain (by
          rw [if_pos rfl]
          exact ⟨rfl,⟨i,located,ends⟩,checked⟩) _ addr ?_ ?_
        · rcases codes with success | ⟨failure,_⟩
          · simp only [success]
            exact lmb_map_update_notify_code out
          · simp [failure]
        · intro zero
          rcases codes with success | ⟨failure,_⟩
          · exact .inl ⟨rfl,success⟩
          · simp [failure] at zero

theorem lmb_alloc_base_outcome {type : MemType} (searched : type ≠ .addr) {align addr max_addr size flags : Nat}
    (some_size : 0 < size) (limit : LimitHolds lmb.available_mem.regions max_addr size) :
    ∃ result, _lmb_alloc_base lmb size align max_addr flags out = some result ∧
      Outcome lmb ⟨.alloc type align addr size flags,out⟩ result := by
  have memory : Bounded lmb.available_mem.regions.reverse := fun r member =>
    sound.available.bounded r (mem_reverse.mp member)
  have reversed : LimitHolds lmb.available_mem.regions.reverse max_addr size := limit.imp_right (Or.imp_right
    fun below r member => below r (mem_reverse.mp member))
  obtain ⟨found,ends,spec⟩ := alloc_search_spec align sound.used.apart sound.used.bounded some_size memory reversed
  rw [_lmb_alloc_base,ends]
  cases found with
  | none => exact ⟨_,rfl,.idle _ _ (by simp)⟩
  | some base =>
    obtain ⟨clear,r,member,_,inside⟩ := spec base rfl
    have bound := memory r member
    have proper : Proper base size := ⟨some_size,by omega⟩
    have plain : ∀ r ∈ lmb.used_mem.regions, r.base < base+size → base < r.stop →
        r.label = LMB_NONE ∧ flags = LMB_NONE := clear_plain clear
    have outcome := fun ret addr' no_refusal success => Outcome.reserved (e := ⟨.alloc type align addr size flags,out⟩)
      type align addr size flags base rfl proper plain (by rw [if_neg searched]; exact clear) ret addr' no_refusal success
    simp only
    rcases add_region_flags_returns sound.used proper plain out.memory with success | ⟨failure,_⟩
    · rw [if_neg (by simp [success])]
      rcases lmb_map_update_notify_code out with told | refused
      · rw [if_neg (by simp [told])]
        exact ⟨_,rfl,outcome 0 base (.inl rfl) (fun _ => .inl ⟨rfl,success⟩)⟩
      · rw [if_pos (by simp [refused]),refused]
        exact ⟨_,rfl,outcome (-1) max_addr (.inr rfl) (by simp)⟩
    · rw [if_pos (by simp [failure])]
      exact ⟨_,rfl,outcome 0 max_addr (.inl rfl) (fun _ => .inr ⟨searched,by simp [failure]⟩)⟩

theorem lmb_free_outcome {base size : Nat} (fits : base+size ≤ 2^64) :
    Outcome lmb ⟨.free base size,out⟩ ((lmb_free lmb base size out).1,base,(lmb_free lmb base size out).2) := by
  have freed := lmb_free_spec sound.used.apart sound.used.bounded fits out.memory
  have codes := freed_returns freed
  rw [lmb_free]
  refine .freed base size rfl fits _ base ?_ ?_
  · intro zero
    rcases codes with success | failure | fault
    · exact success
    · simp [failure] at zero
    · simp [fault,EFAULT] at zero
  · intro refusal
    simp only at refusal ⊢
    rcases codes with success | failure | fault
    · rw [if_neg (by simp [success])] at refusal
      rcases lmb_map_update_notify_code out with told | refused
      · simp [Refusal,told,EEXIST,EFAULT,EINVAL] at refusal
      · simp [Refusal,refused,EEXIST,EFAULT,EINVAL] at refusal
    · rw [if_pos (by simp [failure])]
    · rw [if_pos (by simp [fault,EFAULT])]

theorem perform_outcome (handled : Handled lmb e) :
    ∃ result, perform lmb e = some result ∧ Outcome lmb e result := by
  obtain ⟨call,out⟩ := e
  cases call with
  | add base size => exact ⟨_,rfl,.added base size rfl handled _ base⟩
  | free base size => exact ⟨_,rfl,lmb_free_outcome sound out handled⟩
  | alloc type align addr size flags =>
    by_cases empty : size = 0
    · subst empty
      refine ⟨(0,addr,lmb),?_,.idle 0 addr (fun _ => ⟨type,align,addr,flags,rfl⟩)⟩
      rw [perform_alloc,lmb_alloc_mem.eq_def,if_pos rfl]
    · have some_size : 0 < size := Nat.pos_of_ne_zero empty
      rw [perform_alloc,lmb_alloc_mem.eq_def,if_neg empty]
      cases type with
      | any => exact lmb_alloc_base_outcome sound out (by simp) some_size (.inl rfl)
      | max => exact lmb_alloc_base_outcome sound out (by simp) some_size handled
      | addr => exact ⟨_,rfl,lmb_alloc_addr_outcome sound out ⟨some_size,handled⟩⟩

theorem step_outcome (handled : Handled lmb e) : ∃ ret addr, Outcome lmb e (ret,addr,step lmb e) := by
  obtain ⟨⟨ret,addr,after⟩,returns,outcome⟩ := perform_outcome sound handled
  refine ⟨ret,addr,?_⟩
  rw [step,returns]
  exact outcome

theorem available_plain : ∀ r ∈ lmb.available_mem.regions, r.label = LMB_NONE := by
  intro r member
  obtain ⟨before,after,split⟩ := append_of_mem member
  have apart := sound.available.apart
  have full := apart.full r member
  refine sound.unflagged r.base r.label ?_
  rw [split] at apart ⊢
  exact value_inside apart ⟨le_rfl,by simp only [Interval.stop]; omega⟩

/-- Every call that is handled keeps both lists apart. -/
theorem sound_step (handled : Handled lmb e) : Sound (step lmb e) := by
  obtain ⟨ret,addr,outcome⟩ := step_outcome sound handled
  generalize step lmb e = after at outcome
  cases outcome with
  | idle ret addr zero => exact sound
  | added base size is proper ret addr =>
    have plain : ∀ r ∈ lmb.available_mem.regions, r.base < base+size → base < r.stop →
        r.label = LMB_NONE ∧ LMB_NONE = LMB_NONE := fun r member _ _ => ⟨available_plain sound r member,rfl⟩
    refine ⟨add_region_flags_placed sound.available proper plain _,sound.used,?_⟩
    intro x flags new
    rcases add_region_flags_labels sound.available proper plain _ new with old | same
    · exact sound.unflagged x flags old
    · exact same
  | reserved type align addr size flags base is proper plain chosen ret addr' no_refusal success =>
    exact ⟨sound.available,add_region_flags_placed sound.used proper plain _,sound.unflagged⟩
  | freed base size is fits ret addr success refused =>
    obtain ⟨apart,bounded⟩ := freed_keeps sound.used.apart sound.used.bounded (Nat.le_add_right _ _)
      (lmb_free_spec sound.used.apart sound.used.bounded fits e.out.memory)
    exact ⟨sound.available,⟨apart,bounded⟩,sound.unflagged⟩

end outcome

/-- Sorted, apart, no region empty and no two neighbours with one set of flags
    in touch. -/
def Canonical (lst : List Region) : Prop := Apart lst ∧ Merged lst

def BothCanonical (lmb : Lmb) : Prop := Canonical lmb.available_mem.regions ∧ Canonical lmb.used_mem.regions

/-- The requests of the interface: no size is zero and no range wraps. -/
def InDomain (call : Call) : Prop :=
  match call with
  | .add base size => Proper base size
  | .alloc .any _ _ size _ => 0 < size
  | .alloc .max _ _ size _ => 0 < size
  | .alloc .addr _ addr size _ => Proper addr size
  | .free base size => Proper base size

/-- A call that leaves no touching neighbours behind: the range that is added,
    or is accepted at its address, does not bridge two regions with its flags
    over others, and a limit is not below the size. -/
def Mergeable (lmb : Lmb) (e : Event) : Prop :=
  InDomain e.call ∧
  match e.call with
  | .add base size => lmb.available_mem.fail = false → ¬ Bridges lmb.available_mem.regions base (base+size) LMB_NONE
  | .alloc .any _ _ _ _ => True
  | .alloc .max _ addr size _ => LimitHolds lmb.available_mem.regions addr size
  | .alloc .addr _ addr size flags =>
    lmb.used_mem.fail = false → Accepted lmb addr size flags → ¬ Bridges lmb.used_mem.regions addr (addr+size) flags
  | .free _ _ => True

theorem mergeable_handled {lmb : Lmb} (mergeable : Mergeable lmb e) : Handled lmb e := by
  obtain ⟨call,out⟩ := e
  obtain ⟨domain,bridges⟩ := mergeable
  cases call with
  | add base size => exact domain
  | free base size => exact le_of_lt domain.2
  | alloc type align addr size flags =>
    cases type with
    | any => trivial
    | max => exact bridges
    | addr => exact domain.2

/-- Both lists apart and without touching neighbours of one label. -/
structure Tidy (lmb : Lmb) : Prop extends Sound lmb where
  availableMerged : Merged lmb.available_mem.regions
  usedMerged : Merged lmb.used_mem.regions

theorem tidy_step {lmb : Lmb} (tidy : Tidy lmb) (mergeable : Mergeable lmb e) : Tidy (step lmb e) := by
  have handled := mergeable_handled mergeable
  obtain ⟨ret,addr,outcome⟩ := step_outcome tidy.toSound handled
  refine ⟨sound_step tidy.toSound handled,?_,?_⟩
  · generalize step lmb e = after at outcome
    cases outcome with
    | added base size is proper ret addr =>
      refine add_region_flags_merged tidy.available proper
        (fun r member _ _ => ⟨available_plain tidy.toSound r member,rfl⟩) tidy.availableMerged ?_ _
      have bridges := mergeable.2
      rw [is] at bridges
      exact bridges
    | idle | reserved | freed => exact tidy.availableMerged
  · generalize step lmb e = after at outcome
    cases outcome with
    | idle | added => exact tidy.usedMerged
    | reserved type align addr size flags base is proper plain chosen ret addr' no_refusal success =>
      refine add_region_flags_merged tidy.used proper plain tidy.usedMerged ?_ _
      have bridges := mergeable.2
      rw [is] at bridges
      -- A range that the search finds is clear, one that is named must not bridge.
      cases type with
      | any | max => exact fun _ => not_bridges tidy.used.apart chosen
      | addr =>
        obtain ⟨rfl,accepted⟩ := chosen
        exact fun failed => bridges failed accepted
    | freed base size is fits ret addr success refused =>
      exact freed_merged tidy.used.apart (Nat.le_add_right _ _) tidy.usedMerged
        (lmb_free_spec tidy.used.apart tidy.used.bounded fits e.out.memory)

theorem tidy_setup : Tidy lmb_setup where
  available := ⟨apart_nil,fun r member => absurd member (by simp [lmb_setup])⟩
  used := ⟨apart_nil,fun r member => absurd member (by simp [lmb_setup])⟩
  unflagged := fun x flags labelled => by simp [lmb_setup] at labelled
  availableMerged := IsChain.nil
  usedMerged := IsChain.nil

/-- After every call of a run all of whose calls are mergeable both lists are
    canonical, and every call has returned. -/
theorem lmb_lists_canonical (events : List Event) (mergeable : Along step Mergeable lmb_setup events) :
    (∀ done rest, events = done ++ rest → BothCanonical (run step lmb_setup done)) ∧
      Along step (fun lmb e => (perform lmb e).isSome) lmb_setup events := by
  constructor
  · rintro done rest rfl
    have tidy := invariant (fun _ _ => tidy_step) tidy_setup (along_append.mp mergeable).1
    exact ⟨⟨tidy.available.apart,tidy.availableMerged⟩,tidy.used.apart,tidy.usedMerged⟩
  · refine along_of_invariant (fun _ _ => tidy_step) ?_ tidy_setup mergeable
    intro lmb e tidy holds
    obtain ⟨result,returns,_⟩ := perform_outcome tidy.toSound (mergeable_handled holds)
    rw [returns]
    rfl

/-- A bank of memory, a region taken from its end, one named right below, and
    a release across neither. -/
theorem lmb_four_calls_canonical :
    BothCanonical (run step lmb_setup [⟨.add 16 1008,⟨true,true⟩⟩,⟨.alloc .any 8 0 64 4,⟨true,true⟩⟩,
      ⟨.alloc .addr 1 896 64 4,⟨true,true⟩⟩,⟨.free 928 64,⟨true,true⟩⟩]) := by
  refine (lmb_lists_canonical _ ?_).1 _ [] (List.append_nil _).symm
  refine ⟨⟨by simp [InDomain,Proper],fun _ bridges => ?_⟩,⟨by simp [InDomain],trivial⟩,
    ⟨by simp [InDomain,Proper],fun _ _ bridges => ?_⟩,⟨by simp [InDomain,Proper],trivial⟩,trivial⟩
  · exact absurd (bridges_length bridges) (by decide)
  · exact absurd (bridges_length bridges) (by decide +kernel)

/-- A range added between two regions, over a third, is joined with the one
    before it but not with the one behind it. -/
theorem lmb_bridge_not_canonical :
    ¬ ∀ events : List Event, (∀ e ∈ events, InDomain e.call) → ∀ done rest, events = done ++ rest →
      BothCanonical (run step lmb_setup done) := by
  intro claim
  have canonical := claim [⟨.add 16 16,⟨true,true⟩⟩,⟨.add 40 8,⟨true,true⟩⟩,⟨.add 64 16,⟨true,true⟩⟩,
    ⟨.add 32 32,⟨true,true⟩⟩] (by simp [InDomain,Proper]) _ [] (List.append_nil _).symm
  have merged := canonical.1.2
  have after : (run step lmb_setup [⟨.add 16 16,⟨true,true⟩⟩,⟨.add 40 8,⟨true,true⟩⟩,⟨.add 64 16,⟨true,true⟩⟩,
      ⟨.add 32 32,⟨true,true⟩⟩]).available_mem.regions = [⟨16,48,0⟩,⟨64,16,0⟩] := by decide +kernel
  rw [after] at merged
  exact (List.isChain_cons_cons.mp merged).1 ⟨rfl,rfl⟩

/-- What a call promises about the addresses that are in use and their flags. -/
def Records (lmb : Lmb) (e : Event) : Prop :=
  ∃ ret addr' after, perform lmb e = some (ret,addr',after) ∧
    (match e.call with
    | .add _ _ => True
    | .alloc _ _ _ size flags =>
      ret = 0 → value after.used_mem.regions = painted (value lmb.used_mem.regions) addr' (addr'+size) flags
    | .free base size =>
      ret = 0 → value after.used_mem.regions = erased (value lmb.used_mem.regions) base (base+size)) ∧
    (Refusal ret → value after.used_mem.regions = value lmb.used_mem.regions)

def HasRoom (lst : Alist) (memory : Bool) : Prop := lst.fail = false ∧ (memory = true ∨ lst.regions.length ≠ lst.alloc)

/-- A call whose range is recorded: what is named or searched is not dropped, a
    search has room for its result, and a release keeps the upper part of a
    region. -/
def Recordable (lmb : Lmb) (e : Event) : Prop :=
  Handled lmb e ∧
  match e.call with
  | .add _ _ => True
  | .alloc .addr _ addr size flags => Accepted lmb addr size flags → ¬ Dropped lmb.used_mem.regions addr size flags
  | .alloc _ _ _ size flags =>
    size = 0 ∨ HasRoom lmb.used_mem e.out.memory ∧ ∀ base, ¬ Dropped lmb.used_mem.regions base size flags
  | .free base size => ¬ LosesUpper lmb.used_mem.regions base (base+size)

theorem painted_empty {Label : Type} (m : Nat → Option Label) (base : Nat) (label : Label) :
    painted m base (base+0) label = m := by
  funext x
  rw [painted,if_neg (by omega)]

theorem records_of_recordable {lmb : Lmb} (sound : Sound lmb) (recordable : Recordable lmb e) :
    Records lmb e := by
  obtain ⟨handled,recorded⟩ := recordable
  obtain ⟨⟨ret,addr',after⟩,returns,outcome⟩ := perform_outcome sound handled
  refine ⟨ret,addr',after,returns,?_⟩
  cases outcome with
  | idle _ _ zero =>
    refine ⟨?_,fun _ => rfl⟩
    cases call : e.call with
    | add base size => trivial
    | alloc type align addr size flags =>
      intro success
      obtain ⟨_,_,_,_,empty⟩ := zero success
      rw [call] at empty
      cases empty
      rw [painted_empty]
    | free base size =>
      intro success
      obtain ⟨_,_,_,_,empty⟩ := zero success
      rw [call] at empty
      cases empty
  | added base size is proper =>
    rw [is]
    exact ⟨trivial,fun _ => rfl⟩
  | reserved type align addr size flags base is proper plain chosen _ _ no_refusal success =>
    rw [is] at recorded ⊢
    refine ⟨?_,?_⟩
    · intro zero
      have kept : ¬ Dropped lmb.used_mem.regions base size flags ∧
          (type ≠ .addr → HasRoom lmb.used_mem e.out.memory) := by
        obtain ⟨some_size,_⟩ := proper
        cases type with
        | addr =>
          obtain ⟨rfl,accepted⟩ := chosen
          exact ⟨recorded accepted,by simp⟩
        | any | max =>
          rcases recorded with empty | ⟨room,kept⟩
          · omega
          · exact ⟨kept base,fun _ => room⟩
      rcases success zero with ⟨rfl,added⟩ | ⟨searched,failed⟩
      · exact add_region_flags_value sound.used proper plain kept.1 _ added
      · -- With room for one more region an addition does not fail.
        obtain ⟨fine,room⟩ := kept.2 searched
        rcases add_region_flags_returns sound.used proper plain e.out.memory with added | ⟨_,broken | ⟨stuck,full⟩⟩
        · exact absurd added failed
        · simp [fine] at broken
        · simp [stuck,full] at room
    · rintro (exists_ | fault | invalid)
      · simp [exists_,EEXIST] at no_refusal
      · simp [fault,EFAULT] at no_refusal
      · simp [invalid,EINVAL] at no_refusal
  | freed base size is fits _ _ success refused =>
    rw [is] at recorded ⊢
    have freed := lmb_free_spec sound.used.apart sound.used.bounded fits e.out.memory
    refine ⟨?_,?_⟩
    · intro zero
      exact freed_value sound.used.apart (Nat.le_add_right _ _) recorded freed (success zero)
    · intro refusal
      have code := refused refusal
      have fault : (_lmb_free lmb.used_mem base size e.out.memory).1 = -EFAULT := by
        rcases freed_returns freed with zero | failure | fault
        · rw [← code,zero] at refusal
          simp [Refusal,EEXIST,EFAULT,EINVAL] at refusal
        · rw [← code,failure] at refusal
          simp [Refusal,EEXIST,EFAULT,EINVAL] at refusal
        · exact fault
      rw [freed_fault freed fault]

/-- In every run whose calls are recordable, every call returns, a reservation
    or release that succeeds changes exactly its range, and one that is refused
    changes nothing. -/
theorem lmb_calls_recorded (events : List Event) (recordable : Along step Recordable lmb_setup events) :
    Along step Records lmb_setup events :=
  along_of_invariant (fun _ _ sound holds => sound_step sound holds.1) (fun _ _ => records_of_recordable)
    tidy_setup.toSound recordable

theorem dropped_length {lst : List Region} {base size flags : Nat} (dropped : Dropped lst base size flags) :
    2 ≤ lst.length := by
  obtain ⟨before,inside,after,cut,_,_,c,s,rest,rfl,_⟩ := dropped
  rw [cut.split]
  simp only [length_append,length_cons]
  omega

/-- A bank of memory, a region taken from its end, one named right below, and
    a release across neither. -/
theorem lmb_four_calls_recorded :
    Along step Records lmb_setup [⟨.add 16 1008,⟨true,true⟩⟩,⟨.alloc .any 8 0 64 4,⟨true,true⟩⟩,
      ⟨.alloc .addr 1 896 64 4,⟨true,true⟩⟩,⟨.free 928 64,⟨true,true⟩⟩] := by
  refine lmb_calls_recorded _ ⟨⟨by simp [Handled,Proper],trivial⟩,⟨trivial,.inr ⟨⟨rfl,.inl rfl⟩,fun base dropped => ?_⟩⟩,
    ⟨by simp [Handled],fun _ dropped => ?_⟩,⟨by simp [Handled],?_⟩,trivial⟩
  · exact absurd (dropped_length dropped) (by decide)
  · exact absurd (dropped_length dropped) (by decide +kernel)
  · rintro ⟨before,r,c,s,after,split,_⟩
    have length := congrArg List.length split
    have one : (run step lmb_setup [⟨.add 16 1008,⟨true,true⟩⟩,⟨.alloc .any 8 0 64 4,⟨true,true⟩⟩,
      ⟨.alloc .addr 1 896 64 4,⟨true,true⟩⟩]).used_mem.regions.length = 1 := by decide +kernel
    simp only [List.length_append,List.length_cons] at length
    simp only [run_cons,run_nil] at one
    omega

/-- Two regions in touch, left behind by a range that bridged them, swallow a
    reservation with other flags that ends where the first of them begins. -/
theorem lmb_reservation_dropped :
    ¬ ∀ events : List Event, (∀ e ∈ events, InDomain e.call) → Along step Records lmb_setup events := by
  intro claim
  have records := claim [⟨.add 1 999,⟨true,true⟩⟩,⟨.alloc .addr 1 16 16 0,⟨true,true⟩⟩,
    ⟨.alloc .addr 1 40 8 0,⟨true,true⟩⟩,⟨.alloc .addr 1 64 16 0,⟨true,true⟩⟩,⟨.alloc .addr 1 32 32 0,⟨true,true⟩⟩,
    ⟨.alloc .addr 1 8 8 4,⟨true,true⟩⟩] (by simp [InDomain,Proper])
  obtain ⟨_,_,_,_,_,⟨ret,addr',after,returns,reserved,_⟩,_⟩ := records
  have performed : ∃ last, perform (run step lmb_setup [⟨.add 1 999,⟨true,true⟩⟩,⟨.alloc .addr 1 16 16 0,⟨true,true⟩⟩,
      ⟨.alloc .addr 1 40 8 0,⟨true,true⟩⟩,⟨.alloc .addr 1 64 16 0,⟨true,true⟩⟩,
      ⟨.alloc .addr 1 32 32 0,⟨true,true⟩⟩]) ⟨.alloc .addr 1 8 8 4,⟨true,true⟩⟩ = some (0,8,last) ∧
      value last.used_mem.regions 8 = none := ⟨_,rfl,by decide +kernel⟩
  obtain ⟨last,reported,missing⟩ := performed
  obtain ⟨rfl,rfl,rfl⟩ : 0 = ret ∧ 8 = addr' ∧ last = after := by
    simpa using reported.symm.trans returns
  rw [reserved rfl] at missing
  simp [painted] at missing

end UBoot.Lmb
