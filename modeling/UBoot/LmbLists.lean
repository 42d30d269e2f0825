import UBoot.Lmb

/-!
What `lmb_add_region_flags` and `_lmb_free` do to one list of regions that lie
apart. Adding a range draws it into the list (`Drawn`), with one exception: when
the region right behind the range has other flags and touches a region with its
own flags behind it, the two are joined and the range is reported as added
without having been recorded (`Drops`).
-/
namespace UBoot.Lmb
open UBoot.Intervals List

/-- All regions end below 2^64. -/
def Bounded (lst : List Region) : Prop := ∀ r ∈ lst, r.stop < 2^64

theorem add64_eq {a b : Nat} (fits : a+b < 2^64) : add64 a b = a+b := Nat.mod_eq_of_lt fits

theorem sub64_eq {a b : Nat} (le : b ≤ a) (fits : a < 2^64) : sub64 a b = a-b := by
  unfold sub64
  omega

variable {c r : Region} {front rest : List Region}

theorem overlap_eq {base size : Nat} (some_size : 0 < size) (fits : base+size < 2^64)
    (full : 0 < r.size) (bound : r.stop < 2^64) :
    lmb_addrs_overlap base size r.base r.size = decide (base < r.stop ∧ r.base < base+size) := by
  unfold Interval.stop at *
  simp only [lmb_addrs_overlap]
  rw [add64_eq fits,add64_eq bound,sub64_eq (by omega) fits,sub64_eq (by omega) bound]
  congr 1
  rw [eq_iff_iff]
  omega

theorem adjacent_eq {base size : Nat} (fits : base+size < 2^64) (bound : r.stop < 2^64) :
    lmb_addrs_adjacent base size r.base r.size =
      if r.base = base+size then 1 else if base = r.stop then -1 else 0 := by
  unfold Interval.stop at *
  rw [lmb_addrs_adjacent,add64_eq fits,add64_eq bound]

theorem rgn_at (before : List Region) (r : Region) (after : List Region) :
    rgn (before ++ r :: after) before.length = r := by
  simp [rgn,getD_eq_getElem?_getD]

theorem rgn_next (before : List Region) (r s : Region) (after : List Region) :
    rgn (before ++ r :: s :: after) (before.length+1) = s := by
  simp [rgn,getD_eq_getElem?_getD]

theorem set_at (before : List Region) (r s : Region) (after : List Region) :
    (before ++ r :: after).set before.length s = before ++ s :: after := by
  simp

theorem remove_next (before : List Region) (r : Region) (gone after : List Region) :
    remove_regions (before ++ r :: gone ++ after) (before.length+1) gone.length = before ++ r :: after := by
  induction gone with
  | nil => simp [remove_regions]
  | cons s gone ih =>
    have erased_ : lmb_remove_region (before ++ r :: (s :: gone) ++ after) (before.length+1) =
        before ++ r :: gone ++ after := by
      rw [lmb_remove_region,append_assoc,eraseIdx_append_of_length_le (by omega)]
      simp
    rw [length_cons,remove_regions,erased_,ih]

theorem count_overlaps_none {base size : Nat} {after : List Region} (some_size : 0 < size) (fits : base+size < 2^64)
    (full : ∀ r ∈ after, 0 < r.size) (bounded : Bounded after) (high : ∀ r ∈ after, base+size ≤ r.base)
    (idx rgn_cnt idx_end : Nat) : count_overlaps base size after idx rgn_cnt idx_end = some (rgn_cnt,idx_end) := by
  induction after generalizing idx with
  | nil => rfl
  | cons r after ih =>
    have behind := high r mem_cons_self
    have clear : lmb_addrs_overlap base size r.base r.size = false := by
      rw [overlap_eq some_size fits (full r mem_cons_self) (bounded r mem_cons_self)]
      simp only [decide_eq_false_iff_not]
      omega
    rw [count_overlaps,clear]
    exact ih (fun s member => full s (mem_cons_of_mem _ member))
      (fun s member => bounded s (mem_cons_of_mem _ member))
      (fun s member => high s (mem_cons_of_mem _ member)) (idx+1)

theorem count_overlaps_all {base size : Nat} {inside after : List Region} (some_size : 0 < size)
    (fits : base+size < 2^64) (full : ∀ r ∈ inside ++ after, 0 < r.size) (bounded : Bounded (inside ++ after))
    (across : ∀ r ∈ inside, r.base < base+size ∧ base < r.stop) (plain : ∀ r ∈ inside, r.label = LMB_NONE)
    (high : ∀ r ∈ after, base+size ≤ r.base) (idx rgn_cnt idx_end : Nat) :
    count_overlaps base size (inside ++ after) idx rgn_cnt idx_end =
      some (rgn_cnt+inside.length,if inside = [] then idx_end else idx+inside.length-1) := by
  induction inside generalizing idx rgn_cnt idx_end with
  | nil => exact count_overlaps_none some_size fits full bounded high idx rgn_cnt idx_end
  | cons r inside ih =>
    have meets : lmb_addrs_overlap base size r.base r.size = true := by
      rw [overlap_eq some_size fits (full r (by simp)) (bounded r (by simp))]
      have := across r mem_cons_self
      simp only [decide_eq_true_eq]
      omega
    have later := ih (fun s member => full s (mem_cons_of_mem _ member))
      (fun s member => bounded s (mem_cons_of_mem _ member))
      (fun s member => across s (mem_cons_of_mem _ member))
      (fun s member => plain s (mem_cons_of_mem _ member)) (idx+1) (rgn_cnt+1) idx
    have flags : ¬ r.label ≠ LMB_NONE := by simp [plain r mem_cons_self]
    rw [cons_append,count_overlaps,meets,if_pos rfl,if_neg flags,later,length_cons]
    by_cases last : inside = []
    · subst last
      simp
    · simp only [last,if_false,cons_ne_nil]
      have : 0 < inside.length := length_pos_iff.mpr last
      congr 2
      · omega
      · omega

theorem resize_regions_eq {before inside after : List Region} {base size : Nat} (some_size : 0 < size)
    (fits : base+size < 2^64) (full : ∀ s ∈ r :: inside ++ after, 0 < s.size)
    (bounded : Bounded (before ++ r :: inside ++ after))
    (across : ∀ s ∈ r :: inside, s.base < base+size ∧ base < s.stop) (plain : ∀ s ∈ r :: inside, s.label = LMB_NONE)
    (high : ∀ s ∈ after, base+size ≤ s.base) :
    lmb_resize_regions (before ++ r :: inside ++ after) before.length base size =
      some (before ++ hull base (base+size) LMB_NONE (r :: inside) :: after) := by
  have dropped : (before ++ r :: inside ++ after).drop before.length = (r :: inside) ++ after := by
    rw [append_assoc,drop_left]
  have counted := count_overlaps_all some_size fits
    full (fun s member => bounded s (by rw [append_assoc]; exact mem_append_right _ member))
    across plain high before.length 0 before.length
  have last : rgn (before ++ r :: inside ++ after) (before.length+(r :: inside).length-1) =
      (r :: inside).getLast (cons_ne_nil _ _) := by
    have place : before.length+(r :: inside).length-1 < (before ++ r :: inside).length := by simp
    rw [rgn,getD_eq_getElem?_getD,getElem?_append_left place,getElem?_append_right (by simp)]
    have index : before.length+(r :: inside).length-1-before.length = (r :: inside).length-1 := by
      simp only [length_cons]; omega
    rw [index,← getLast?_eq_getElem?,getLast?_eq_some_getLast (cons_ne_nil _ _)]
    rfl
  set final := (r :: inside).getLast (cons_ne_nil _ _) with finalIs
  have finalIn : final ∈ r :: inside := getLast_mem _
  have finalBound : final.stop < 2^64 := bounded final (mem_append_left _ (mem_append_right _ finalIn))
  have first : rgn (before ++ r :: inside ++ after) before.length = r := by
    rw [append_assoc]
    exact rgn_at before r (inside ++ after)
  have stop : hullStop (base+size) (r :: inside) = max (base+size) final.stop := by
    rw [hullStop,getLast?_eq_some_getLast (cons_ne_nil _ _)]
  have named : r.label = LMB_NONE := plain r mem_cons_self
  have resized : (⟨min base r.base,sub64 (max (add64 final.base final.size) (add64 base size)) (min base r.base),
      r.label⟩ : Region) = hull base (base+size) LMB_NONE (r :: inside) := by
    have one : add64 final.base final.size = final.stop := add64_eq finalBound
    rw [one,add64_eq fits,sub64_eq (by omega) (by omega),named,hull,stop,hullBase_cons,max_comm]
  unfold lmb_resize_regions
  rw [dropped,counted]
  simp only [cons_ne_nil,if_false,first,last,resized]
  rw [append_assoc before,cons_append,set_at,← cons_append,← append_assoc]
  have some_left : 0+(r :: inside).length-1 = inside.length := by simp
  rw [some_left,remove_next]

section adding
variable {base size flags : Nat} (some_size : 0 < size) (fits : base+size < 2^64)
include some_size fits

theorem find_neighbour_before {before rest : List Region} (full : ∀ r ∈ before, 0 < r.size) (bounded : Bounded before)
    (low : ∀ r ∈ before, r.stop ≤ base) (loose : ∀ r ∈ before, ¬ (r.stop = base ∧ r.label = flags)) (i : Nat) :
    find_neighbour base size flags (before ++ rest) i = find_neighbour base size flags rest (i+before.length) := by
  induction before generalizing i with
  | nil => rfl
  | cons r before ih =>
    have early := low r mem_cons_self
    have here := loose r mem_cons_self
    have positive := full r mem_cons_self
    have bound := bounded r mem_cons_self
    have later := ih (fun s member => full s (mem_cons_of_mem _ member))
      (fun s member => bounded s (mem_cons_of_mem _ member))
      (fun s member => low s (mem_cons_of_mem _ member))
      (fun s member => loose s (mem_cons_of_mem _ member)) (i+1)
    have notBehind : ¬ r.base = base+size := by unfold Interval.stop at early; omega
    have clear : lmb_addrs_overlap base size r.base r.size = false := by
      rw [overlap_eq some_size fits positive bound]
      simp only [decide_eq_false_iff_not]
      omega
    rw [cons_append,find_neighbour,adjacent_eq fits bound,clear,if_neg notBehind,later]
    have index : i+1+before.length = i+(r :: before).length := by simp only [length_cons]; omega
    rw [index]
    by_cases touch : base = r.stop
    · have other : flags ≠ r.label := fun same => here ⟨touch.symm,same.symm⟩
      simp [touch,other]
    · simp [touch]

theorem find_neighbour_after {after : List Region} (full : ∀ r ∈ after, 0 < r.size) (bounded : Bounded after)
    (high : ∀ r ∈ after, base+size < r.base) (i : Nat) : find_neighbour base size flags after i = .none := by
  induction after generalizing i with
  | nil => rfl
  | cons r after ih =>
    have late := high r mem_cons_self
    have positive := full r mem_cons_self
    have bound := bounded r mem_cons_self
    have later := ih (fun s member => full s (mem_cons_of_mem _ member))
      (fun s member => bounded s (mem_cons_of_mem _ member))
      (fun s member => high s (mem_cons_of_mem _ member)) (i+1)
    have notBehind : ¬ r.base = base+size := by omega
    have notBefore : ¬ base = r.stop := by unfold Interval.stop; omega
    have clear : lmb_addrs_overlap base size r.base r.size = false := by
      rw [overlap_eq some_size fits positive bound]
      simp only [decide_eq_false_iff_not]
      omega
    rw [find_neighbour,adjacent_eq fits bound,clear,if_neg notBehind,if_neg notBefore,later]
    simp

end adding

/-- The region at an index and the next one, apart: joined when they touch and
    have one label, left alone otherwise. -/
theorem coalesce_next_eq {before after : List Region} {r s : Region} (apart : Apart (before ++ r :: s :: after))
    (bounded : Bounded (before ++ r :: s :: after)) (coalesced : Bool) :
    coalesce_next (before ++ r :: s :: after) before.length coalesced =
      if r.stop = s.base ∧ r.label = s.label then some (before ++ join r s :: after,true)
      else some (before ++ r :: s :: after,coalesced) := by
  obtain ⟨_,rest,_⟩ := apart_append.mp apart
  obtain ⟨fullR,behind,tail⟩ := apart_cons.mp rest
  obtain ⟨fullS,_,_⟩ := apart_cons.mp tail
  have ordered := behind s mem_cons_self
  have boundR : r.stop < 2^64 := bounded r (by simp)
  have boundS : s.stop < 2^64 := bounded s (by simp)
  have inside : before.length+1 < (before ++ r :: s :: after).length := by simp
  have clear : lmb_addrs_overlap r.base r.size s.base s.size = false := by
    have := overlap_eq (r := s) fullR boundR fullS boundS
    rw [this]
    simp only [decide_eq_false_iff_not]
    unfold Interval.stop at ordered
    omega
  have notAbove : ¬ r.base = s.stop := by unfold Interval.stop at *; omega
  have touching : lmb_addrs_adjacent r.base r.size s.base s.size = if r.stop = s.base then 1 else 0 := by
    have either : lmb_addrs_adjacent r.base r.size s.base s.size =
        if s.base = r.base+r.size then 1 else if r.base = s.stop then -1 else 0 := adjacent_eq boundR boundS
    rw [either,if_neg notAbove]
    have same : (s.base = r.base+r.size) = (r.stop = s.base) := by
      rw [eq_iff_iff]; unfold Interval.stop; omega
    simp only [same]
  have sum : r.size+s.size < 2^64 := by unfold Interval.stop at *; omega
  have joined : lmb_coalesce_regions (before ++ r :: s :: after) before.length (before.length+1) =
      before ++ join r s :: after := by
    rw [lmb_coalesce_regions,rgn_at,rgn_next,add64_eq sum,set_at]
    simp only [lmb_remove_region]
    rw [eraseIdx_append_of_length_le (by omega)]
    simp [join]
  unfold coalesce_next lmb_regions_check
  rw [if_pos inside,rgn_at,rgn_next]
  simp only [clear,touching,joined]
  by_cases same : r.label = s.label
  · by_cases touch : r.stop = s.base
    · simp [same,touch]
    · simp [same,touch]
  · simp [same]

/-- A range cuts a list into what lies before it, what it overlaps, and what
    lies behind it. -/
structure Cut (lst before inside after : List Region) (base stop : Nat) : Prop where
  split : lst = before ++ inside ++ after
  low : ∀ r ∈ before, r.stop ≤ base
  across : ∀ r ∈ inside, r.base < stop ∧ base < r.stop
  high : ∀ r ∈ after, stop ≤ r.base

def Loose (before : List Region) (base flags : Nat) : Prop := ∀ r ∈ before, ¬ (r.stop = base ∧ r.label = flags)

/-- The region right behind the range has other flags and touches a region with
    its own flags; nothing else is near. -/
def Drops (before inside after : List Region) (base stop flags : Nat) : Prop :=
  inside = [] ∧ Loose before base flags ∧ ∃ c s rest, after = c :: s :: rest ∧ c.base = stop ∧ c.label ≠ flags ∧
    c.stop = s.base ∧ c.label = s.label

/-- The last region before the range touches it with its flags, or none does. -/
theorem touching_or_loose {before : List Region} (apart : Apart before) {base : Nat} (low : ∀ r ∈ before, r.stop ≤ base)
    (flags : Nat) : (∃ front a, before = front ++ [a] ∧ a.stop = base ∧ a.label = flags) ∨ Loose before base flags := by
  rcases eq_nil_or_concat before with rfl | ⟨front,a,rfl⟩
  · exact .inr (by simp [Loose])
  rw [concat_eq_append] at *
  by_cases touch : a.stop = base ∧ a.label = flags
  · exact .inl ⟨front,a,rfl,touch.1,touch.2⟩
  right
  intro r member
  rcases mem_append.mp member with early | last
  · have across := (apart_append.mp apart).2.2 r early a (by simp)
    have full := apart.full a (by simp)
    have bound := low a (by simp)
    unfold Interval.stop at *
    omega
  · rw [mem_singleton.mp last]
    exact touch

theorem insert_index_eq {before after : List Region} {base : Nat} (low : ∀ r ∈ before, r.base < base)
    (high : ∀ r ∈ after, base < r.base) {k : Nat} (inside : k ≤ after.length) :
    insert_index (before ++ after) base (before.length+k) = before.length := by
  induction k with
  | zero =>
    rcases eq_nil_or_concat before with rfl | ⟨front,a,rfl⟩
    · rfl
    · rw [concat_eq_append] at *
      have here : rgn (front ++ [a] ++ after) front.length = a := by
        rw [append_assoc]
        exact rgn_at front a after
      have early := low a (by simp)
      rw [add_zero,length_append,length_singleton,insert_index,here,if_neg (by omega)]
  | succ k ih =>
    have there : rgn (before ++ after) (before.length+k) = after[k] := by
      rw [rgn,getD_eq_getElem?_getD,getElem?_append_right (by omega),Nat.add_sub_cancel_left,
        getElem?_eq_getElem (by omega)]
      rfl
    have late := high after[k] (getElem_mem _)
    rw [← add_assoc,insert_index,there,if_pos late]
    exact ih (by omega)

theorem insert_between (before : List Region) (r : Region) (after : List Region) :
    (before ++ after).insertIdx before.length r = before ++ r :: after := by
  induction before with
  | nil => rfl
  | cons s before ih => simp [ih]

section shapes
variable {base size flags : Nat} {lst before inside after : List Region} (some_size : 0 < size)
  (fits : base+size < 2^64) (apart : Apart lst) (bounded : Bounded lst)
  (cut : Cut lst before inside after base (base+size))
include some_size fits apart bounded cut

theorem coalesce_before {a : Region} (shape : before = front ++ [a]) (touch : a.stop = base)
    (same : a.label = flags) : coalesce lst base size flags =
      some (front ++ hull base (base+size) flags [a] :: (inside ++ after),front.length,true) := by
  have split : lst = front ++ a :: (inside ++ after) := by rw [cut.split,shape]; simp
  rw [split] at apart bounded ⊢
  obtain ⟨first,rest,across⟩ := apart_append.mp apart
  have full := (apart_cons.mp rest).1
  have bound : a.stop < 2^64 := bounded a (by simp)
  have early : ∀ r ∈ front, r.stop < base := by
    intro r member
    have := across r member a mem_cons_self
    unfold Interval.stop at *
    omega
  have found : find_neighbour base size flags (front ++ a :: (inside ++ after)) 0 = .before front.length := by
    rw [find_neighbour_before some_size fits first.full (fun r member => bounded r (by simp [member]))
      (fun r member => le_of_lt (early r member))
      (fun r member touches => by have := early r member; omega),zero_add]
    have notBehind : ¬ a.base = base+size := by unfold Interval.stop at touch; omega
    rw [find_neighbour,adjacent_eq fits bound,if_neg notBehind]
    simp [touch,same]
  have grown : ({ a with size := add64 a.size size } : Region) = hull base (base+size) flags [a] := by
    unfold Interval.stop at touch bound
    rw [add64_eq (by omega),hull,hullBase_cons,hullStop_one,Interval.stop,min_eq_right (by omega),
      max_eq_left (by omega),← same]
    congr 1
    omega
  simp only [coalesce,found,rgn_at,set_at,grown]

theorem coalesce_overlap (loose : Loose before base flags) {b : Region} {more : List Region} (some_inside : inside = b :: more)
    (plain : ∀ r ∈ inside, r.label = LMB_NONE) : coalesce lst base size flags =
      some (before ++ hull base (base+size) LMB_NONE inside :: after,before.length,true) := by
  have split := cut.split
  subst some_inside
  rw [split] at apart bounded ⊢
  obtain ⟨front,_,_⟩ := apart_append.mp apart
  obtain ⟨first,rest,_⟩ := apart_append.mp front
  have full := (apart_cons.mp rest).1
  have bound : b.stop < 2^64 := bounded b (by simp)
  obtain ⟨low,high⟩ := cut.across b mem_cons_self
  have found : find_neighbour base size flags (before ++ b :: more ++ after) 0 = .overlap before.length := by
    rw [append_assoc,find_neighbour_before some_size fits first.full
      (fun r member => bounded r (by simp [member])) cut.low loose,zero_add]
    have notBehind : ¬ b.base = base+size := by omega
    have notBefore : ¬ base = b.stop := by omega
    have meets : lmb_addrs_overlap base size b.base b.size = true := by
      rw [overlap_eq some_size fits full bound]
      simp only [decide_eq_true_eq]
      omega
    rw [cons_append,find_neighbour,adjacent_eq fits bound,if_neg notBehind,if_neg notBefore,meets]
    simp
  have positive : ∀ r ∈ b :: more ++ after, 0 < r.size := fun r member =>
    apart.full r (by rw [append_assoc]; exact mem_append_right _ member)
  have resized := resize_regions_eq some_size fits positive bounded cut.across plain cut.high
  simp only [coalesce,found,resized,Option.map_some]

theorem find_neighbour_behind (loose : Loose before base flags) (none_inside : inside = []) :
    lst = before ++ after ∧
      find_neighbour base size flags lst 0 = find_neighbour base size flags after before.length := by
  have split : lst = before ++ after := by rw [cut.split,none_inside,append_nil]
  refine ⟨split,?_⟩
  rw [split] at apart bounded ⊢
  rw [find_neighbour_before some_size fits (apart_append.mp apart).1.full
    (fun r member => bounded r (mem_append_left _ member)) cut.low loose,zero_add]

theorem coalesce_behind (loose : Loose before base flags) (none_inside : inside = [])
    (next : after = c :: rest) (touch : c.base = base+size) (same : c.label = flags) : coalesce lst base size flags =
      some (before ++ hull base (base+size) flags [c] :: rest,before.length,true) := by
  obtain ⟨split,found⟩ := find_neighbour_behind some_size fits apart bounded cut loose none_inside
  subst next
  rw [split] at bounded
  have bound : c.stop < 2^64 := bounded c (by simp)
  rw [find_neighbour,adjacent_eq fits bound,if_pos touch] at found
  simp only [same,ne_eq,not_true_eq_false,if_false,Int.zero_lt_one,gt_iff_lt,if_true] at found
  have grown : ({ c with base := sub64 c.base size, size := add64 c.size size } : Region) =
      hull base (base+size) flags [c] := by
    unfold Interval.stop at bound
    rw [add64_eq (by omega),sub64_eq (by omega) (by omega),hull,hullBase_cons,hullStop_one,Interval.stop,
      min_eq_left (by omega),max_eq_right (by omega),← same]
    congr 1
    · omega
    · omega
  rw [split] at found ⊢
  simp only [coalesce,found,rgn_at,set_at,grown]

theorem coalesce_flags (loose : Loose before base flags) (none_inside : inside = [])
    (next : after = c :: rest) (touch : c.base = base+size) (other : c.label ≠ flags) :
    coalesce lst base size flags = some (lst,before.length,false) := by
  obtain ⟨split,found⟩ := find_neighbour_behind some_size fits apart bounded cut loose none_inside
  subst next
  rw [split] at bounded
  have bound : c.stop < 2^64 := bounded c (by simp)
  have differ : flags ≠ c.label := fun same => other same.symm
  rw [find_neighbour,adjacent_eq fits bound,if_pos touch] at found
  simp only [differ,ne_eq,not_false_eq_true,if_true,Int.zero_lt_one,gt_iff_lt] at found
  simp only [coalesce,found]

theorem coalesce_none (loose : Loose before base flags) (none_inside : inside = [])
    (away : ∀ r ∈ after, base+size < r.base) : coalesce lst base size flags = some (lst,lst.length,false) := by
  obtain ⟨split,found⟩ := find_neighbour_behind some_size fits apart bounded cut loose none_inside
  rw [split] at apart bounded
  rw [find_neighbour_after some_size fits (apart_append.mp apart).2.1.full
    (fun r member => bounded r (mem_append_right _ member)) away] at found
  simp only [coalesce,found]

omit some_size fits apart bounded cut in
theorem coalesce_next_drawn {front touching back : List Region} {stop : Nat} (range : base < stop)
    (fits : stop < 2^64) (apart : Apart lst) (bounded : Bounded lst) (split : lst = front ++ touching ++ back)
    (low : ∀ r ∈ front, r.stop ≤ base) (loose : Loose front base flags)
    (meets : ∀ r ∈ touching, r.base ≤ stop ∧ base ≤ r.stop ∧ r.label = flags) (high : ∀ r ∈ back, stop ≤ r.base) :
    ∃ regions, coalesce_next (front ++ hull base stop flags touching :: back) front.length true = some (regions,true) ∧
      Drawn lst base stop flags regions := by
  cases back with
  | nil =>
    refine ⟨front ++ [hull base stop flags touching],?_,.alone front touching [] split low loose meets high (by simp)⟩
    rw [coalesce_next,if_neg (by simp)]
  | cons s back =>
    have newApart : Apart (front ++ hull base stop flags touching :: s :: back) := by
      rw [split] at apart
      exact absorb_apart apart range low high
    have newBounded : Bounded (front ++ hull base stop flags touching :: s :: back) := by
      intro r member
      rcases mem_append.mp member with early | later
      · exact bounded r (by rw [split]; simp [early])
      rcases mem_cons.mp later with rfl | later
      · rw [hull_stop range]
        unfold hullStop
        split
        · exact fits
        · rename_i last
          have := bounded _ (by rw [split]; exact mem_append_left _ (mem_append_right _ (mem_of_getLast? last)))
          omega
      · exact bounded r (by rw [split]; exact mem_append_right _ later)
    have next := coalesce_next_eq newApart newBounded true
    rw [hull_stop range] at next
    by_cases touch : hullStop stop touching = s.base ∧ (hull base stop flags touching).label = s.label
    · rw [if_pos touch] at next
      exact ⟨_,next,.joined front touching s back split low loose meets high touch.1 touch.2.symm⟩
    · rw [if_neg touch] at next
      refine ⟨_,next,.alone front touching (s :: back) split low loose meets high ?_⟩
      intro _ _ t head
      cases head
      rintro ⟨meet,same⟩
      exact touch ⟨meet,same.symm⟩

/-- The first attempt extends a region before the range over regions that the
    range overlaps, and the second one draws them in. -/
theorem coalesce_next_overlap {a b : Region} {more : List Region} (shape : before = front ++ [a])
    (touch : a.stop = base) (same : a.label = LMB_NONE) (some_inside : inside = b :: more)
    (plain : ∀ r ∈ inside, r.label = LMB_NONE) :
    ∃ regions, coalesce_next (front ++ hull base (base+size) LMB_NONE [a] :: (inside ++ after)) front.length true =
        some (regions,true) ∧ Drawn lst base (base+size) LMB_NONE regions := by
  subst some_inside
  set m := hull base (base+size) LMB_NONE [a] with mIs
  have split : lst = front ++ (a :: b :: more) ++ after := by rw [cut.split,shape]; simp
  have whole := split
  rw [split] at apart bounded
  have bound : a.stop < 2^64 := bounded a (by simp)
  obtain ⟨frontApart,backApart,_⟩ := apart_append.mp apart
  obtain ⟨first,rest,across⟩ := apart_append.mp frontApart
  obtain ⟨fullA,behindA,restApart⟩ := apart_cons.mp rest
  have mBase : m.base = a.base := by
    unfold Interval.stop at touch
    rw [mIs,hull,hullBase_cons]
    exact min_eq_right (by omega)
  have mStop : m.stop = base+size := by
    rw [mIs,hull_stop (by omega),hullStop_one]
    exact max_eq_left (by omega)
  have mSize : m.base+m.size = base+size := mStop
  have early : ∀ r ∈ front, r.stop < base := by
    intro r member
    have := across r member a mem_cons_self
    unfold Interval.stop at *
    omega
  have low : ∀ r ∈ front, r.stop ≤ base := fun r member => le_of_lt (early r member)
  have loose : Loose front base LMB_NONE := fun r member touches => by have := early r member; omega
  have newBounded : Bounded (front ++ m :: (b :: more) ++ after) := by
    intro r member
    simp only [append_assoc,cons_append,mem_append,mem_cons] at member
    rcases member with early | rfl | later
    · exact bounded r (by simp [early])
    · rw [mStop]; exact fits
    · exact bounded r (by simp only [append_assoc,cons_append,mem_append,mem_cons]; tauto)
  have newFull : ∀ r ∈ (m :: b :: more) ++ after, 0 < r.size := by
    intro r member
    simp only [cons_append,mem_cons,mem_append] at member
    rcases member with rfl | later
    · unfold Interval.stop at touch
      omega
    · exact apart.full r (by simp only [append_assoc,cons_append,mem_append,mem_cons]; tauto)
  have meetsM : ∀ r ∈ m :: b :: more, r.base < m.base+m.size ∧ m.base < r.stop := by
    intro r member
    rw [mSize,mBase]
    unfold Interval.stop at touch
    rcases mem_cons.mp member with rfl | later
    · rw [mBase,mStop]
      omega
    · obtain ⟨under,above⟩ := cut.across r later
      omega
  have plainM : ∀ r ∈ m :: b :: more, r.label = LMB_NONE := by
    intro r member
    rcases mem_cons.mp member with rfl | later
    · rfl
    · exact plain r later
  have resized := resize_regions_eq (newFull m (by simp)) (by omega) newFull newBounded meetsM plainM
    (fun r member => by rw [mSize]; exact cut.high r member)
  -- The hull over the extended region is the one over the region itself.
  have sameHull : hull m.base (m.base+m.size) LMB_NONE (m :: b :: more) =
      hull base (base+size) LMB_NONE (a :: b :: more) := by
    unfold Interval.stop at touch
    rw [mSize,hull,hull,hullStop_cons,hullStop_cons,hullBase_cons,hullBase_cons,mBase,min_self,
      min_eq_right (by omega)]
  rw [sameHull] at resized
  refine ⟨front ++ hull base (base+size) LMB_NONE (a :: b :: more) :: after,?_,?_⟩
  · have inside_ : front.length+1 < (front ++ m :: (b :: more ++ after)).length := by simp
    have meets : lmb_addrs_overlap m.base m.size b.base b.size = true := by
      obtain ⟨under,above⟩ := meetsM b (by simp)
      rw [overlap_eq (newFull m (by simp)) (by omega) (newFull b (by simp)) (newBounded b (by simp))]
      simp only [decide_eq_true_eq]
      omega
    have labels : ¬ m.label ≠ b.label := by rw [plainM m (by simp),plainM b (by simp)]; simp
    have checked : lmb_regions_check (front ++ m :: (b :: more ++ after)) front.length (front.length+1) = .overlap := by
      unfold lmb_regions_check
      rw [rgn_at,cons_append,rgn_next]
      simp only [labels,if_false,meets,if_true]
    rw [coalesce_next,if_pos inside_,checked]
    simp only [rgn_at]
    rw [append_assoc,cons_append] at resized
    rw [resized]
    rfl
  · refine .alone front (a :: b :: more) after whole low loose ?_ cut.high ?_
    · intro r member
      rcases mem_cons.mp member with rfl | later
      · unfold Interval.stop at *
        exact ⟨by omega,by omega,same⟩
      · obtain ⟨under,above⟩ := cut.across r later
        exact ⟨by omega,by omega,plain r later⟩
    -- A region behind that touches is bridged, or touched the last one before.
    intro merged apartEnds s head
    rintro ⟨meet,flag⟩
    cases after with
    | nil => contradiction
    | cons c rest =>
      cases head
      set last := (b :: more).getLast (cons_ne_nil _ _) with lastIs
      have stop : hullStop (base+size) (a :: b :: more) = max (base+size) last.stop := by
        rw [hullStop_cons,hullStop,getLast?_eq_some_getLast (cons_ne_nil _ _)]
      rw [stop] at meet
      by_cases beyond : base+size < last.stop
      · rw [whole] at merged
        have ends := (merged_append.mp merged).2.2 last (by
          rw [getLast?_append_of_ne_nil _ (by simp),getLast?_cons_cons,
            getLast?_eq_some_getLast (cons_ne_nil _ _)]
          rfl) s rfl
        refine ends ⟨by omega,?_⟩
        rw [plain last (getLast_mem _),flag]
      · refine apartEnds ⟨front,a,b :: more,s,rest,?_,by simp,touch,same,by omega,flag⟩
        rw [whole]

end shapes

/-- What an addition comes to: the range is drawn in, or it is dropped, or the
    list is full and cannot grow. -/
inductive Added (lst : Alist) (before inside after : List Region) (base stop flags : Nat) (memory : Bool) :
    Int × Alist → Prop
  | drawn (regions : List Region) (alloc : Nat) (draws : Drawn lst.regions base stop flags regions) :
      Added lst before inside after base stop flags memory (0,⟨regions,alloc,false⟩)
  | dropped (regions : List Region) (drops : Drops before inside after base stop flags) (apart : Apart regions)
      (bounded : Bounded regions) (same : value regions = value lst.regions) :
      Added lst before inside after base stop flags memory (0,⟨regions,lst.alloc,false⟩)
  | full (none_ : memory = false) (full : lst.regions.length = lst.alloc) :
      Added lst before inside after base stop flags memory (-1,⟨lst.regions,lst.alloc,true⟩)

theorem insert_added {lst : Alist} {before after : List Region} {base stop flags size : Nat} (range : stop = base+size)
    (some_size : 0 < size) (apart : Apart lst.regions) (split : lst.regions = before ++ after)
    (low : ∀ r ∈ before, r.stop ≤ base) (loose : Loose before base flags) (high : ∀ r ∈ after, stop ≤ r.base)
    (separate : ∀ s ∈ after.head?, ¬ (stop = s.base ∧ s.label = flags)) (memory : Bool) :
    Added lst before [] after base stop flags memory
      (if lst.regions.length = lst.alloc ∧ memory = false then (-1,⟨lst.regions,lst.alloc,true⟩)
       else (0,⟨lst.regions.insertIdx (insert_index lst.regions base lst.regions.length) ⟨base,size,flags⟩,
         if lst.regions.length = lst.alloc then 2*lst.alloc else lst.alloc,false⟩)) := by
  by_cases full : lst.regions.length = lst.alloc ∧ memory = false
  · rw [if_pos full]
    exact .full full.2 full.1
  rw [if_neg full]
  refine .drawn _ _ ?_
  have place : insert_index lst.regions base lst.regions.length = before.length := by
    rw [split,length_append]
    refine insert_index_eq ?_ (fun r member => ?_) le_rfl
    · intro r member
      have early := low r member
      have positive := apart.full r (by rw [split]; exact mem_append_left _ member)
      unfold Interval.stop at early
      omega
    · have := high r member
      omega
  have new : (⟨base,size,flags⟩ : Region) = hull base stop flags [] := by
    rw [hull,hullBase_nil,hullStop_nil,range,Nat.add_sub_cancel_left]
  have drawn : Drawn lst.regions base stop flags (before ++ hull base stop flags [] :: after) :=
    .alone before [] after (by rw [split,append_nil]) low loose (by simp) high (fun _ _ => separate)
  rw [place,new,split,insert_between,← split]
  exact drawn

theorem add_coalesced {lst : Alist} {base size flags i : Nat} {first second : List Region} {coalesced : Bool}
    (sound : lst.fail = false) (one : coalesce lst.regions base size flags = some (first,i,coalesced))
    (two : coalesce_next first i coalesced = some (second,true)) (memory : Bool) :
    lmb_add_region_flags lst base size flags memory = (0,⟨second,lst.alloc,false⟩) := by
  simp only [lmb_add_region_flags,sound,Bool.false_eq_true,if_false,one,two]

theorem add_inserted {lst : Alist} {base size flags i : Nat} {first second : List Region} {coalesced : Bool}
    (sound : lst.fail = false) (one : coalesce lst.regions base size flags = some (first,i,coalesced))
    (two : coalesce_next first i coalesced = some (second,false)) (memory : Bool) :
    lmb_add_region_flags lst base size flags memory =
      if second.length = lst.alloc ∧ memory = false then (-1,⟨second,lst.alloc,true⟩)
      else (0,⟨second.insertIdx (insert_index second base second.length) ⟨base,size,flags⟩,
        if second.length = lst.alloc then 2*lst.alloc else lst.alloc,false⟩) := by
  simp only [lmb_add_region_flags,sound,Bool.false_eq_true,if_false,one,two]

section known
variable {lst : Alist} {base size flags : Nat} (sound : lst.fail = false) (apart : Apart lst.regions)
  (bounded : Bounded lst.regions) (some_size : 0 < size) (fits : base+size < 2^64)
include sound apart bounded some_size fits

/-- A range behind a region with its flags: the region grows over it. -/
theorem add_before {front after : List Region} {a : Region} (split : lst.regions = front ++ a :: after)
    (touch : a.stop = base) (same : a.label = flags) (high : ∀ r ∈ after, base+size ≤ r.base) (memory : Bool) :
    ∃ regions, lmb_add_region_flags lst base size flags memory = (0,⟨regions,lst.alloc,false⟩) ∧
      Drawn lst.regions base (base+size) flags regions := by
  have parts : lst.regions = front ++ [a] ++ after := by rw [split]; simp
  obtain ⟨first,rest,across⟩ := apart_append.mp (split ▸ apart)
  have full := (apart_cons.mp rest).1
  have early : ∀ r ∈ front, r.stop < base := by
    intro r member
    have := across r member a mem_cons_self
    unfold Interval.stop at *
    omega
  have cut : Cut lst.regions (front ++ [a]) [] after base (base+size) := by
    refine ⟨by rw [parts,append_nil],?_,by simp,high⟩
    intro r member
    rcases mem_append.mp member with before | last
    · exact le_of_lt (early r before)
    · rw [mem_singleton.mp last,touch]
  have one := coalesce_before some_size fits apart bounded cut rfl touch same
  obtain ⟨regions,two,draws⟩ := coalesce_next_drawn (by omega : base < base+size) fits apart bounded parts
    (fun r member => le_of_lt (early r member))
    (fun r member touches => by have := early r member; omega)
    (fun r member => by
      rw [mem_singleton.mp member]
      unfold Interval.stop at *
      exact ⟨by omega,by omega,same⟩) high
  exact ⟨regions,add_coalesced sound one two memory,draws⟩

theorem add_behind {before rest : List Region} (split : lst.regions = before ++ c :: rest)
    (low : ∀ r ∈ before, r.stop ≤ base) (loose : Loose before base flags) (touch : c.base = base+size)
    (same : c.label = flags) (memory : Bool) :
    ∃ regions, lmb_add_region_flags lst base size flags memory = (0,⟨regions,lst.alloc,false⟩) ∧
      Drawn lst.regions base (base+size) flags regions := by
  have parts : lst.regions = before ++ [c] ++ rest := by rw [split]; simp
  have tail := (apart_append.mp (split ▸ apart)).2.1
  have late : ∀ r ∈ rest, base+size ≤ r.base := by
    intro r later
    have := (apart_cons.mp tail).2.1 r later
    unfold Interval.stop at this
    omega
  have cut : Cut lst.regions before [] (c :: rest) base (base+size) := by
    refine ⟨by rw [split,append_nil],low,by simp,?_⟩
    intro r member
    rcases mem_cons.mp member with rfl | later
    · omega
    · exact late r later
  have one := coalesce_behind some_size fits apart bounded cut loose rfl rfl touch same
  obtain ⟨regions,two,draws⟩ := coalesce_next_drawn (by omega : base < base+size) fits apart bounded parts low loose
    (fun r member => by
      rw [mem_singleton.mp member]
      unfold Interval.stop
      exact ⟨by omega,by omega,same⟩) late
  exact ⟨regions,add_coalesced sound one two memory,draws⟩

/-- A range before two regions that are joined in its place. -/
theorem add_drops {before rest : List Region} {c s : Region} (split : lst.regions = before ++ c :: s :: rest)
    (low : ∀ r ∈ before, r.stop ≤ base) (loose : Loose before base flags) (touch : c.base = base+size)
    (other : c.label ≠ flags) (joins : c.stop = s.base ∧ c.label = s.label) (memory : Bool) :
    lmb_add_region_flags lst base size flags memory = (0,⟨before ++ join c s :: rest,lst.alloc,false⟩) := by
  have tail := (apart_append.mp (split ▸ apart)).2.1
  have cut : Cut lst.regions before [] (c :: s :: rest) base (base+size) := by
    refine ⟨by rw [split,append_nil],low,by simp,?_⟩
    intro r member
    rcases mem_cons.mp member with rfl | later
    · omega
    · have := (apart_cons.mp tail).2.1 r later
      unfold Interval.stop at this
      omega
  have one := coalesce_flags some_size fits apart bounded cut loose rfl rfl touch other
  have two := coalesce_next_eq (split ▸ apart) (split ▸ bounded) false
  rw [← split,if_pos joins] at two
  exact add_coalesced sound one two memory

theorem add_plain {before after : List Region} (cut : Cut lst.regions before [] after base (base+size))
    (loose : Loose before base flags) (apart_behind : ∀ c ∈ after.head?, ¬ (c.base = base+size ∧ c.label = flags))
    (kept : ¬ Drops before [] after base (base+size) flags) (memory : Bool) :
    lmb_add_region_flags lst base size flags memory =
      if lst.regions.length = lst.alloc ∧ memory = false then (-1,⟨lst.regions,lst.alloc,true⟩)
      else (0,⟨lst.regions.insertIdx (insert_index lst.regions base lst.regions.length) ⟨base,size,flags⟩,
        if lst.regions.length = lst.alloc then 2*lst.alloc else lst.alloc,false⟩) := by
  have split : lst.regions = before ++ after := by rw [cut.split,append_nil]
  have afterApart : Apart after := (apart_append.mp (split ▸ apart)).2.1
  by_cases away : ∀ r ∈ after, base+size < r.base
  · have one := coalesce_none some_size fits apart bounded cut loose rfl away
    have two : coalesce_next lst.regions lst.regions.length false = some (lst.regions,false) := by
      rw [coalesce_next,if_neg (by omega)]
    exact add_inserted sound one two memory
  cases nextIs : after with
  | nil => simp [nextIs] at away
  | cons c rest =>
    -- What is not away begins right behind the range.
    have touch : c.base = base+size := by
      have ahead := cut.high c (by simp [nextIs])
      by_contra gap
      refine away fun r member => ?_
      rw [nextIs] at member
      obtain ⟨_,behind,_⟩ := apart_cons.mp (nextIs ▸ afterApart)
      rcases mem_cons.mp member with rfl | later
      · omega
      · have := behind r later
        unfold Interval.stop at this
        omega
    have other : c.label ≠ flags := fun same => apart_behind c (by simp [nextIs]) ⟨touch,same⟩
    have one := coalesce_flags some_size fits apart bounded cut loose rfl nextIs touch other
    refine add_inserted sound one ?_ memory
    cases rest with
    | nil => rw [coalesce_next,if_neg (by rw [split,nextIs]; simp)]
    | cons s rest =>
      have pair : lst.regions = before ++ c :: s :: rest := by rw [split,nextIs]
      have two := coalesce_next_eq (pair ▸ apart) (pair ▸ bounded) false
      rwa [← pair,if_neg (fun joins => kept ⟨rfl,loose,c,s,rest,nextIs,touch,other,joins⟩)] at two

end known

/-- The spec of `lmb_add_region_flags`, for a range that overlaps regions
    without flags only, and only when it has none itself. -/
theorem add_region_flags_spec {lst : Alist} {before inside after : List Region} {base size flags : Nat}
    (sound : lst.fail = false) (apart : Apart lst.regions) (bounded : Bounded lst.regions) (some_size : 0 < size)
    (fits : base+size < 2^64) (cut : Cut lst.regions before inside after base (base+size))
    (plain : ∀ r ∈ inside, r.label = LMB_NONE ∧ flags = LMB_NONE) (memory : Bool) :
    Added lst before inside after base (base+size) flags memory
      (lmb_add_region_flags lst base size flags memory) := by
  have range : base < base+size := by omega
  have beforeApart : Apart before := by
    have := apart
    rw [cut.split] at this
    exact (apart_append.mp (apart_append.mp this).1).1
  rcases touching_or_loose beforeApart cut.low flags with ⟨front,a,shape,touch,same⟩ | loose
  · -- The region before the range grows over it.
    cases inside with
    | nil =>
      have split : lst.regions = front ++ a :: after := by rw [cut.split,shape]; simp
      obtain ⟨regions,adds,draws⟩ := add_before sound apart bounded some_size fits split touch same cut.high memory
      rw [adds]
      exact .drawn regions lst.alloc draws
    | cons b more =>
      have one := coalesce_before some_size fits apart bounded cut shape touch same
      have noFlags : flags = LMB_NONE := (plain b mem_cons_self).2
      subst noFlags
      obtain ⟨regions,two,draws⟩ := coalesce_next_overlap some_size fits apart bounded cut shape touch same rfl
        (fun r member => (plain r member).1)
      rw [add_coalesced sound one two]
      exact .drawn regions lst.alloc draws
  cases inside with
  | cons b more =>
    -- The regions that the range overlaps are drawn into one.
    have noFlags : flags = LMB_NONE := (plain b mem_cons_self).2
    subst noFlags
    have one := coalesce_overlap some_size fits apart bounded cut loose rfl (fun r member => (plain r member).1)
    obtain ⟨regions,two,draws⟩ := coalesce_next_drawn range fits apart bounded cut.split cut.low loose
      (fun r member => by
        obtain ⟨under,above⟩ := cut.across r member
        exact ⟨by omega,by omega,(plain r member).1⟩) cut.high
    rw [add_coalesced sound one two]
    exact .drawn regions lst.alloc draws
  | nil =>
    have split : lst.regions = before ++ after := by rw [cut.split,append_nil]
    by_cases behind : ∃ c ∈ after.head?, c.base = base+size ∧ c.label = flags
    · -- The region behind the range grows down over it.
      obtain ⟨c,head,touch,same⟩ := behind
      obtain ⟨rest,rfl⟩ := head?_eq_some_iff.mp head
      obtain ⟨regions,adds,draws⟩ := add_behind sound apart bounded some_size fits split cut.low loose touch same memory
      rw [adds]
      exact .drawn regions lst.alloc draws
    by_cases drops : Drops before [] after base (base+size) flags
    · obtain ⟨_,_,c,s,rest,rfl,touch,other,joins⟩ := drops
      rw [add_drops sound apart bounded some_size fits split cut.low loose touch other joins]
      have joinedBounded : Bounded (before ++ join c s :: rest) := by
        intro r member
        rcases mem_append.mp member with early | later
        · exact bounded r (by rw [split]; simp [early])
        · rcases mem_cons.mp later with rfl | later
          · have last := bounded s (by rw [split]; simp)
            unfold Interval.stop at *
            simp only [join]
            omega
          · exact bounded r (by rw [split]; simp [later])
      refine .dropped _ ⟨rfl,loose,c,s,rest,rfl,touch,other,joins⟩ (join_apart (split ▸ apart) joins.1) joinedBounded ?_
      rw [split]
      exact join_value joins.1 joins.2
    · have separate : ∀ c ∈ after.head?, ¬ (c.base = base+size ∧ c.label = flags) :=
        fun c head near => behind ⟨c,head,near⟩
      rw [add_plain sound apart bounded some_size fits cut loose separate drops]
      refine insert_added rfl some_size apart split cut.low loose cut.high ?_ memory
      exact fun c head near => separate c head ⟨near.1.symm,near.2⟩

theorem findIdx?_split {p : Region → Bool} {lst : List Region} {i : Nat} (found : lst.findIdx? p = some i) :
    ∃ before r after, lst = before ++ r :: after ∧ before.length = i ∧ p r = true ∧ ∀ s ∈ before, p s = false := by
  induction lst generalizing i with
  | nil => simp at found
  | cons s lst ih =>
    rw [findIdx?_cons] at found
    by_cases here : p s = true
    · rw [if_pos here] at found
      cases found
      exact ⟨[],s,lst,rfl,rfl,here,by simp⟩
    rw [if_neg here] at found
    obtain ⟨j,later,rfl⟩ := Option.map_eq_some_iff.mp found
    obtain ⟨before,r,after,rfl,rfl,holds,none_before⟩ := ih later
    refine ⟨s :: before,r,after,rfl,rfl,holds,?_⟩
    intro t member
    rcases mem_cons.mp member with rfl | member
    · simpa using here
    · exact none_before t member

def lower (r : Region) (base : Nat) : Region := ⟨r.base,base-r.base,r.label⟩

def upper (r : Region) (base : Nat) : Region := ⟨base,r.stop-base,r.label⟩

@[simp] theorem lower_stop {base : Nat} (above : r.base ≤ base) : (lower r base).stop = base := by
  simp only [lower,Interval.stop]
  omega

@[simp] theorem upper_stop {base : Nat} (below : base ≤ r.stop) : (upper r base).stop = r.stop := by
  simp only [upper,Interval.stop] at *
  omega

theorem bounded_shrink {before after : List Region} {r r' : Region} (bounded : Bounded (before ++ r :: after))
    (stop : r'.stop ≤ r.stop) : Bounded (before ++ r' :: after) := by
  intro s member
  rcases mem_append.mp member with early | later
  · exact bounded s (mem_append_left _ early)
  · rcases mem_cons.mp later with rfl | later
    · have := bounded r (by simp)
      omega
    · exact bounded s (by simp [later])

theorem upper_added {before after : List Region} (apart : Apart (before ++ r :: after))
    (bounded : Bounded (before ++ r :: after)) {base stop alloc : Nat} {fail : Bool} (below : r.base < base)
    (ordered : base ≤ stop) (above : stop < r.stop) (memory : Bool) (sound : fail = false) :
    Added ⟨before ++ lower r base :: after,alloc,fail⟩ (before ++ [lower r base]) [] after stop r.stop r.label memory
      (lmb_add_region_flags ⟨before ++ lower r base :: after,alloc,fail⟩ stop (r.stop-stop) r.label memory) := by
  have lowerStop : (lower r base).stop = base := lower_stop (le_of_lt below)
  have bound : r.stop < 2^64 := bounded r (by simp)
  have lowerApart : Apart (before ++ lower r base :: after) :=
    shrink_apart apart le_rfl (by omega) (by simp only [lower]; omega)
  have total : stop+(r.stop-stop) = r.stop := by omega
  have cut : Cut (before ++ lower r base :: after) (before ++ [lower r base]) [] after stop (stop+(r.stop-stop)) := by
    obtain ⟨_,tail,across⟩ := apart_append.mp apart
    refine ⟨by simp,?_,by simp,?_⟩
    · intro s early
      rcases mem_append.mp early with early | last
      · have := across s early r mem_cons_self
        omega
      · rw [mem_singleton.mp last,lowerStop]
        exact ordered
    · rw [total]
      exact (apart_cons.mp tail).2.1
  have plain : ∀ s ∈ ([] : List Region), s.label = LMB_NONE ∧ r.label = LMB_NONE := by simp
  have spec := @add_region_flags_spec ⟨before ++ lower r base :: after,alloc,fail⟩ _ _ _ _ _ _ sound lowerApart
    (bounded_shrink bounded (by omega)) (by omega) (by omega) cut plain memory
  rw [total] at spec
  exact spec

/-- What a release comes to: no region holds the range, or the one that does
    is cut down, or it is cut in two and its upper part added again. -/
inductive Freed (lst : Alist) (base stop : Nat) (memory : Bool) : Int × Alist → Prop
  | unheld : Freed lst base stop memory (-EFAULT,lst)
  | cut (before : List Region) (r : Region) (rest after : List Region) (split : lst.regions = before ++ r :: after)
      (inside : r.base ≤ base ∧ stop ≤ r.stop) (rest_of : rest = [] ∨ ∃ r', rest = [r'] ∧ 0 < r'.size ∧ r.base ≤ r'.base ∧ r'.stop ≤ r.stop ∧ r'.label = r.label)
      (stands : ∀ x, value rest x = if (r.base ≤ x ∧ x < r.stop) ∧ ¬ (base ≤ x ∧ x < stop) then some r.label else none) :
      Freed lst base stop memory (0,{ lst with regions := before ++ (rest ++ after) })
  | split (before : List Region) (r : Region) (after : List Region) (result : Int × Alist)
      (split : lst.regions = before ++ r :: after) (below : r.base < base) (above : stop < r.stop)
      (added : lst.fail = false → Added { lst with regions := before ++ lower r base :: after } (before ++ [lower r base]) []
        after stop r.stop r.label memory result)
      (broken : lst.fail = true → result = (-1,{ lst with regions := before ++ lower r base :: after })) :
      Freed lst base stop memory result

theorem lmb_free_spec {lst : Alist} (apart : Apart lst.regions) (bounded : Bounded lst.regions) {base size : Nat}
    (fits : base+size ≤ 2^64) (memory : Bool) : Freed lst base (base+size) memory (_lmb_free lst base size memory) := by
  have rgnend : ∀ r ∈ lst.regions, sub64 (add64 r.base r.size) 1 = r.stop-1 := by
    intro r member
    have full := apart.full r member
    have bound := bounded r member
    unfold Interval.stop at *
    rw [add64_eq bound,sub64_eq (by omega) bound]
  unfold _lmb_free
  simp only
  cases found : lst.regions.findIdx? fun r =>
      decide (r.base ≤ base ∧ sub64 (add64 base size) 1 ≤ sub64 (add64 r.base r.size) 1) with
  | none => exact .unheld
  | some i =>
    obtain ⟨before,r,after,split,rfl,holds,_⟩ := findIdx?_split found
    have member : r ∈ lst.regions := by rw [split]; simp
    have full := apart.full r member
    have bound := bounded r member
    simp only [rgnend r member,decide_eq_true_eq] at holds
    have here : rgn lst.regions before.length = r := by rw [split]; exact rgn_at before r after
    -- A range that a region holds ends below 2^64.
    have proper : 0 < base+size ∧ base+size < 2^64 := by
      obtain ⟨_,ends⟩ := holds
      unfold Interval.stop at *
      unfold sub64 add64 at ends
      omega
    have ends : sub64 (add64 base size) 1 = base+size-1 := by
      rw [add64_eq proper.2,sub64_eq (by omega) proper.2]
    rw [ends] at holds ⊢
    have next : add64 (base+size-1) 1 = base+size := by
      rw [add64_eq (by omega)]
      omega
    simp only [here,rgnend r member,next]
    have within : r.base ≤ base ∧ base+size ≤ r.stop := by unfold Interval.stop at *; omega
    have whole : r.stop = r.base+r.size := rfl
    have shorter : r.base = base ∨ r.stop-1 = base+size-1 → sub64 r.size size = r.size-size := by
      intro _
      exact sub64_eq (by omega) (by omega)
    by_cases low : r.base = base
    · by_cases high : r.stop-1 = base+size-1
      · rw [if_pos ⟨low,high⟩]
        have erase : lmb_remove_region lst.regions before.length = before ++ ([] ++ after) := by
          rw [lmb_remove_region,split,eraseIdx_append_of_length_le (by omega)]
          simp
        rw [erase]
        refine .cut before r [] after split within (.inl rfl) ?_
        intro x
        rw [value_nil,if_neg (by omega)]
      · rw [if_neg (fun both => high both.2),if_pos low,shorter (.inl low)]
        have smaller : ({ r with base := base+size, size := r.size-size } : Region) = upper r (base+size) := by
          rw [upper,show r.stop-(base+size) = r.size-size by omega]
        rw [smaller,split,set_at,← singleton_append (l := after)]
        have stop := upper_stop (r := r) within.2
        refine .cut before r [upper r (base+size)] after split within
          (.inr ⟨_,rfl,by simp only [upper]; omega,by simp only [upper]; omega,by omega,rfl⟩) ?_
        intro x
        rw [value_one,stop]
        refine if_congr ?_ rfl rfl
        simp only [upper]
        omega
    · rw [if_neg (fun both => low both.1),if_neg low]
      by_cases high : r.stop-1 = base+size-1
      · rw [if_pos high,shorter (.inr high)]
        have smaller : ({ r with size := r.size-size } : Region) = lower r base := by
          rw [lower,show base-r.base = r.size-size by omega]
        rw [smaller,split,set_at,← singleton_append (l := after)]
        have stop := lower_stop (r := r) within.1
        refine .cut before r [lower r base] after split within
          (.inr ⟨_,rfl,by simp only [lower]; omega,le_rfl,by omega,rfl⟩) ?_
        intro x
        rw [value_one,stop]
        refine if_congr ?_ rfl rfl
        simp only [lower]
        omega
      · -- The region is cut in two.
        rw [if_neg high]
        have first : ({ r with size := sub64 base r.base } : Region) = lower r base := by
          rw [sub64_eq within.1 (by omega)]
          rfl
        have second : sub64 (r.stop-1) (base+size-1) = r.stop-(base+size) := by
          rw [sub64_eq (by omega) (by omega)]
          omega
        rw [first,second,split,set_at]
        have stop := lower_stop (r := r) within.1
        refine .split before r after _ split (by omega) (by omega) ?_ ?_
        · intro sound
          exact upper_added (split ▸ apart) (split ▸ bounded) (by omega) (by omega) (by omega) memory sound
        · intro failed
          rw [lmb_add_region_flags,if_pos failed]

theorem add_region_flags_no_fault (lst : Alist) (base size flags : Nat) (memory : Bool) :
    (lmb_add_region_flags lst base size flags memory).1 ≠ -EFAULT := by
  have failure : (-1 : Int) ≠ -EFAULT := by decide
  have success : (0 : Int) ≠ -EFAULT := by decide
  rw [lmb_add_region_flags]
  split
  · exact failure
  split
  · exact failure
  · split
    · exact failure
    · exact success
    · split
      · exact failure
      · exact success

/-- A range that one region holds is found. -/
theorem lmb_free_finds {lst : Alist} {base size : Nat} (bounded : Bounded lst.regions) (some_size : 0 < size)
    (held : ∃ r ∈ lst.regions, r.base ≤ base ∧ base+size ≤ r.stop) (memory : Bool) :
    (_lmb_free lst base size memory).1 ≠ -EFAULT := by
  obtain ⟨r,member,low,high⟩ := held
  have bound := bounded r member
  have reaches : r.base ≤ base ∧ sub64 (add64 base size) 1 ≤ sub64 (add64 r.base r.size) 1 := by
    simp only [Interval.stop] at bound high
    rw [add64_eq bound,add64_eq (by omega),sub64_eq (by omega) (by omega),sub64_eq (by omega) bound]
    omega
  rw [_lmb_free]
  simp only
  cases found : lst.regions.findIdx? fun r =>
      decide (r.base ≤ base ∧ sub64 (add64 base size) 1 ≤ sub64 (add64 r.base r.size) 1) with
  | none =>
    have missing := findIdx?_eq_none_iff.mp found r member
    simp [reaches] at missing
  | some i =>
    simp only
    split_ifs
    · simp [EFAULT]
    · simp [EFAULT]
    · simp [EFAULT]
    · exact add_region_flags_no_fault _ _ _ _ _

section consequences
variable {lst : Alist} {before inside after : List Region} {base stop flags : Nat} {memory : Bool} {result : Int × Alist}

/-- An addition keeps the regions apart and below 2^64. -/
theorem added_keeps (apart : Apart lst.regions) (bounded : Bounded lst.regions) (range : base < stop) (fits : stop < 2^64)
    (added : Added lst before inside after base stop flags memory result) :
    Apart result.2.regions ∧ Bounded result.2.regions := by
  cases added with
  | drawn regions alloc draws => exact ⟨drawn_apart apart range draws,drawn_stop range draws fits bounded⟩
  | dropped regions drops apart bounded same | full none_ full => exact ⟨apart,bounded⟩

/-- An addition to a list without touching neighbours of one label leaves none,
    unless the range bridges two regions. -/
theorem added_merged (split : lst.regions = before ++ inside ++ after) (merged : Merged lst.regions) (range : base < stop)
    (apartEnds : ¬ Bridges lst.regions base stop flags)
    (added : Added lst before inside after base stop flags memory result) : Merged result.2.regions := by
  cases added with
  | drawn regions alloc draws => exact drawn_merged range merged apartEnds draws
  | dropped regions drops apart bounded same =>
    obtain ⟨rfl,_,c,s,rest,rfl,_,_,touch⟩ := drops
    rw [split] at merged
    exact absurd touch (isChain_cons_cons.mp (merged_append.mp merged).2.1).1
  | full none_ full => exact merged

/-- An addition that succeeds paints the range, unless it is dropped. -/
theorem added_value (apart : Apart lst.regions) (range : base < stop)
    (recorded : ¬ Drops before inside after base stop flags)
    (added : Added lst before inside after base stop flags memory result) (success : result.1 = 0) :
    value result.2.regions = painted (value lst.regions) base stop flags := by
  cases added with
  | drawn regions alloc draws => exact drawn_value apart range draws
  | dropped regions drops apart bounded same => exact absurd drops recorded
  | full none_ full => simp at success

/-- An addition, whatever it comes to, puts no byte in but those of its range. -/
theorem added_within (apart : Apart lst.regions) (range : base < stop)
    (added : Added lst before inside after base stop flags memory result) {x : Nat}
    (listed : value result.2.regions x ≠ none) : value lst.regions x ≠ none ∨ base ≤ x ∧ x < stop := by
  cases added with
  | drawn regions alloc draws =>
    rw [drawn_value apart range draws,painted] at listed
    split_ifs at listed with within
    · exact .inr within
    · exact .inl listed
  | dropped regions drops apart bounded same =>
    rw [← same]
    exact .inl listed
  | full none_ full => exact .inl listed

/-- An addition succeeds, or fails because the list cannot grow. -/
theorem added_returns (added : Added lst before inside after base stop flags memory result) :
    result.1 = 0 ∨ result.1 = -1 ∧ memory = false ∧ lst.regions.length = lst.alloc := by
  cases added with
  | drawn regions alloc draws | dropped regions drops apart bounded same => exact .inl rfl
  | full none_ full => exact .inr ⟨rfl,none_,full⟩

/-- A list without the upper part of a region. -/
theorem lower_keeps (apart : Apart (before ++ r :: after)) (bounded : Bounded (before ++ r :: after))
    (below : r.base < base) (above : base ≤ r.stop) :
    Apart (before ++ lower r base :: after) ∧ Bounded (before ++ lower r base :: after) := by
  have stop := lower_stop (r := r) (le_of_lt below)
  exact ⟨shrink_apart apart le_rfl (by omega) (by simp only [lower]; omega),bounded_shrink bounded (by omega)⟩

/-- A release keeps the regions apart and below 2^64. -/
theorem freed_keeps (apart : Apart lst.regions) (bounded : Bounded lst.regions) (ordered : base ≤ stop)
    (freed : Freed lst base stop memory result) : Apart result.2.regions ∧ Bounded result.2.regions := by
  cases freed with
  | unheld => exact ⟨apart,bounded⟩
  | cut before r rest after split inside rest_of stands =>
    rw [split] at apart bounded
    rcases rest_of with rfl | ⟨r',rfl,full,low,high,same⟩
    · refine ⟨remove_apart apart,?_⟩
      intro s member
      apply bounded s
      simp only [nil_append,mem_append,mem_cons] at member ⊢
      tauto
    · exact ⟨shrink_apart apart low high full,bounded_shrink bounded high⟩
  | split before r after result split below above added broken =>
    rw [split] at apart bounded
    obtain ⟨lowerApart,lowerBounded⟩ := lower_keeps apart bounded below (by omega)
    cases failed : lst.fail with
    | true =>
      rw [broken failed]
      exact ⟨lowerApart,lowerBounded⟩
    | false => exact added_keeps lowerApart lowerBounded above (bounded r (by simp)) (added failed)

/-- A release leaves no touching neighbours of one label where there were
    none. -/
theorem freed_merged (apart : Apart lst.regions) (ordered : base ≤ stop) (merged : Merged lst.regions)
    (freed : Freed lst base stop memory result) : Merged result.2.regions := by
  cases freed with
  | unheld => exact merged
  | cut before r rest after split inside rest_of stands =>
    rw [split] at apart merged
    rcases rest_of with rfl | ⟨r',rfl,full,low,high,same⟩
    · exact remove_merged apart merged
    · exact shrink_merged apart low high same merged
  | split before r after result split below above added broken =>
    rw [split] at apart merged
    have lowerStop := lower_stop (r := r) (le_of_lt below)
    have lowerMerged : Merged (before ++ lower r base :: after) :=
      shrink_merged apart le_rfl (by omega) rfl merged
    cases failed : lst.fail with
    | true =>
      rw [broken failed]
      exact lowerMerged
    | false =>
      refine added_merged (by simp) lowerMerged above ?_ (added failed)
      -- The upper part overlaps nothing, so it bridges nothing.
      obtain ⟨_,tail,across⟩ := apart_append.mp apart
      refine not_bridges (shrink_apart apart le_rfl (by omega) (by simp only [lower]; omega)) ?_
      intro s member
      rcases mem_append.mp member with early | later
      · have := across s early r mem_cons_self
        omega
      · rcases mem_cons.mp later with rfl | later
        · omega
        · exact .inr ((apart_cons.mp tail).2.1 s later)

/-- The cases in which a release that cuts a region in two loses the upper
    part: the region behind it has other flags and touches one with its own. -/
def LosesUpper (lst : List Region) (base stop : Nat) : Prop :=
  ∃ before r c s after, lst = before ++ r :: c :: s :: after ∧ r.base < base ∧ base < stop ∧ stop < r.stop ∧
    c.base = r.stop ∧ c.label ≠ r.label ∧ c.stop = s.base ∧ c.label = s.label

/-- A region without its upper part. -/
theorem lower_value (apart : Apart (before ++ r :: after)) (below : r.base < base) (above : base ≤ r.stop) :
    value (before ++ lower r base :: after) = erased (value (before ++ r :: after)) base r.stop := by
  have lowerStop := lower_stop (r := r) (le_of_lt below)
  show value (before ++ ([lower r base] ++ after)) = _
  refine erase_value apart ⟨le_of_lt below,le_rfl⟩ (fun x => ?_)
  rw [value_one,lowerStop]
  refine if_congr ?_ rfl rfl
  simp only [lower]
  omega

/-- A release that succeeds erases the range. -/
theorem freed_value (apart : Apart lst.regions) (ordered : base ≤ stop)
    (kept : ¬ LosesUpper lst.regions base stop) (freed : Freed lst base stop memory result) (success : result.1 = 0) :
    value result.2.regions = erased (value lst.regions) base stop := by
  cases freed with
  | unheld => simp [EFAULT] at success
  | cut before r rest after split inside rest_of stands =>
    rw [split] at apart ⊢
    exact erase_value apart inside stands
  | split before r after result split below above added broken =>
    rw [split] at apart ⊢
    have lowerStop := lower_stop (r := r) (le_of_lt below)
    cases failed : lst.fail with
    | true =>
      rw [broken failed] at success
      simp at success
    | false =>
      have lowerApart : Apart (before ++ lower r base :: after) :=
        shrink_apart apart le_rfl (by omega) (by simp only [lower]; omega)
      have recorded : ¬ Drops (before ++ [lower r base]) [] after stop r.stop r.label := by
        rintro ⟨_,loose,c,s,rest,next,touch,other,joins⟩
        refine kept ⟨before,r,c,s,rest,by rw [split,next],below,?_,above,touch,other,joins⟩
        by_contra empty
        exact loose (lower r base) (by simp) ⟨by omega,rfl⟩
      rw [added_value lowerApart above recorded (added failed) success]
      show painted (value (before ++ lower r base :: after)) stop r.stop r.label = _
      rw [lower_value apart below (by omega)]
      funext x
      unfold painted erased
      by_cases back : stop ≤ x ∧ x < r.stop
      · rw [if_pos back,if_neg (by omega),value_inside apart (by omega)]
      · rw [if_neg back]
        exact if_congr (by omega) rfl rfl

/-- A release, whatever it comes to, puts no byte in; and none of its range is
    left unless no region holds the range. -/
theorem freed_within (apart : Apart lst.regions) (ordered : base ≤ stop) (freed : Freed lst base stop memory result) {x : Nat}
    (listed : value result.2.regions x ≠ none) :
    value lst.regions x ≠ none ∧ (result.1 ≠ -EFAULT → ¬ (base ≤ x ∧ x < stop)) := by
  have erased_within {lo hi : Nat} (left : erased (value lst.regions) lo hi x ≠ none) :
      value lst.regions x ≠ none ∧ ¬ (lo ≤ x ∧ x < hi) := by
    rw [erased] at left
    split_ifs at left with gone
    · exact absurd rfl left
    · exact ⟨left,gone⟩
  cases freed with
  | unheld => exact ⟨listed,fun held => absurd rfl held⟩
  | cut before r rest after split inside rest_of stands =>
    rw [split] at apart
    rw [erase_value apart inside stands,← split] at listed
    exact ⟨(erased_within listed).1,fun _ => (erased_within listed).2⟩
  | split before r after result split below above added broken =>
    rw [split] at apart
    have shrunk : value (before ++ lower r base :: after) = erased (value lst.regions) base r.stop := by
      rw [split]
      exact lower_value apart below (by omega)
    have front (left : value (before ++ lower r base :: after) x ≠ none) :
        value lst.regions x ≠ none ∧ (result.1 ≠ -EFAULT → ¬ (base ≤ x ∧ x < stop)) := by
      rw [shrunk] at left
      obtain ⟨old,outside⟩ := erased_within left
      exact ⟨old,fun _ => by omega⟩
    cases failed : lst.fail with
    | true =>
      rw [broken failed] at listed
      exact front listed
    | false =>
      have lowerApart : Apart (before ++ lower r base :: after) := shrink_apart apart le_rfl (by rw [lower_stop (le_of_lt below)]; omega) (by simp only [lower]; omega)
      rcases added_within lowerApart above (added failed) listed with left | upper
      · exact front left
      · rw [split,value_inside apart (by omega)]
        exact ⟨by simp,fun _ => by omega⟩

/-- A release that is not refused has found a region that holds the range. -/
theorem freed_held (freed : Freed lst base stop memory result) (found : result.1 ≠ -EFAULT) :
    ∃ r ∈ lst.regions, r.base ≤ base ∧ stop ≤ r.stop := by
  cases freed with
  | unheld => exact absurd rfl found
  | cut before r rest after split inside rest_of stands => exact ⟨r,by simp [split],inside⟩
  | split before r after result split below above added broken =>
    exact ⟨r,by simp [split],le_of_lt below,le_of_lt above⟩

theorem freed_returns (freed : Freed lst base stop memory result) :
    result.1 = 0 ∨ result.1 = -1 ∨ result.1 = -EFAULT := by
  cases freed with
  | unheld => exact .inr (.inr rfl)
  | cut before r rest after split inside rest_of stands => exact .inl rfl
  | split before r after result split below above added broken =>
    cases failed : lst.fail with
    | true => exact .inr (.inl (by rw [broken failed]))
    | false =>
      rcases added_returns (added failed) with success | ⟨failure,_⟩
      · exact .inl success
      · exact .inr (.inl failure)

/-- A release that finds no region changes nothing. -/
theorem freed_fault (freed : Freed lst base stop memory result) (fault : result.1 = -EFAULT) : result.2 = lst := by
  cases freed with
  | unheld => rfl
  | cut before r rest after split inside rest_of stands => simp [EFAULT] at fault
  | split before r after result split below above added broken =>
    cases failed : lst.fail with
    | true =>
      rw [broken failed] at fault
      simp [EFAULT] at fault
    | false =>
      rcases added_returns (added failed) with returns | ⟨returns,_⟩
      · rw [returns] at fault
        simp [EFAULT] at fault
      · rw [returns] at fault
        simp [EFAULT] at fault

end consequences
end UBoot.Lmb
