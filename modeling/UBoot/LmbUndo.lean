import UBoot.LmbRuns

/-!
What `_lmb_free` undoes. A range that `lmb_add_region_flags` has put between other
regions and that is given back leaves the bytes in use that were in use before,
unless it had joined two regions and the upper one stands before two others that
are joined in its place (`added_freed_iff`). A range that was never put in is given
back all the same where a region holds it (`freed_iff`).
-/
namespace UBoot.Lmb
open UBoot.Intervals List

def SameBytes (lst lst' : List Region) : Prop := ∀ x, value lst' x ≠ none ↔ value lst x ≠ none

theorem SameBytes.of_eq {lst lst' : List Region} (same : value lst' = value lst) : SameBytes lst lst' := by
  intro x
  rw [same]

def Held (lst : List Region) (base stop : Nat) : Prop := ∃ r ∈ lst, r.base ≤ base ∧ stop ≤ r.stop

instance (lst : List Region) (base stop : Nat) : Decidable (Held lst base stop) :=
  inferInstanceAs (Decidable (∃ _ ∈ lst, _))

def Wedged (lst : List Region) (base stop flags : Nat) : Prop :=
  ∃ before a b after, lst = before ++ a :: b :: after ∧ a.stop = base ∧ a.label = flags ∧ b.base = stop ∧ b.label = flags

/-- A range between two regions with its flags, the upper one right before a
    region with other flags that touches one with its own. -/
def Severed (lst : List Region) (base stop flags : Nat) : Prop :=
  ∃ before a b c s after, lst = before ++ a :: b :: c :: s :: after ∧ a.stop = base ∧ a.label = flags ∧
    b.base = stop ∧ b.label = flags ∧ c.base = b.stop ∧ c.label ≠ flags ∧ c.stop = s.base ∧ c.label = s.label

section bytes
variable {lst : List Region} (apart : Apart lst)
include apart

omit apart in
theorem clear_value {base stop : Nat} (clear : Clear lst base stop) {x : Nat} (inside : base ≤ x ∧ x < stop) :
    value lst x = none := by
  refine value_eq_none fun r member => ?_
  have := clear r member
  omega

theorem wedged_of_bytes {base stop flags : Nat} (range : base < stop) (clear : Clear lst base stop) (positive : 0 < base)
    (below : value lst (base-1) = some flags) (above : value lst stop = some flags) : Wedged lst base stop flags := by
  obtain ⟨a,inA,⟨lowA,highA⟩,labelA⟩ := value_some apart below
  obtain ⟨b,inB,⟨lowB,highB⟩,labelB⟩ := value_some apart above
  have stopA : a.stop = base := by
    have := clear a inA
    omega
  have baseB : b.base = stop := by
    have := clear b inB
    omega
  obtain ⟨before,inside,after,split,low,across,high⟩ := cut_at apart base stop
  have empty : inside = [] := by
    rw [eq_nil_iff_forall_not_mem]
    intro r member
    have meets := across r member
    have := clear r (by rw [split]; simp [member])
    omega
  subst empty
  rw [append_nil] at split
  subst split
  obtain ⟨beforeApart,afterApart,_⟩ := apart_append.mp apart
  have first : a ∈ before := by
    refine (mem_append.mp inA).resolve_right fun behind => ?_
    have full := apart.full a inA
    have := high a behind
    simp only [Intervals.Interval.stop] at *
    omega
  have second : b ∈ after := by
    refine (mem_append.mp inB).resolve_left fun ahead => ?_
    have := low b ahead
    omega
  obtain ⟨front,a',rfl,touch,same⟩ := (touching_or_loose beforeApart low flags).resolve_right
    (fun loose => loose a first ⟨stopA,labelA⟩)
  cases after with
  | nil => simp at second
  | cons b' rest =>
    have head : b' = b := by
      rcases mem_cons.mp second with same | later
      · exact same.symm
      · have between := (apart_cons.mp afterApart).2.1 b later
        have full := (apart_cons.mp afterApart).1
        have := high b' mem_cons_self
        simp only [Intervals.Interval.stop] at *
        omega
    rw [head]
    exact ⟨front,a',b,rest,by simp,touch,same,baseB,labelB⟩

end bytes

section release
variable {lst : Alist} (placed : Placed lst.regions) {base size : Nat}
include placed

theorem held_value {stop : Nat} (held : Held lst.regions base stop) (range : base < stop) : value lst.regions base ≠ none := by
  obtain ⟨r,member,low,high⟩ := held
  rw [value_member placed.apart member ⟨low,by omega⟩]
  simp

theorem lmb_free_unheld (wraps_not : base+size ≤ 2^64) (unheld : ¬ Held lst.regions base (base+size)) (memory : Bool) :
    _lmb_free lst base size memory = (-EFAULT,lst) := by
  have freed := lmb_free_spec placed.apart placed.bounded wraps_not memory
  generalize _lmb_free lst base size memory = result at freed
  cases freed with
  | unheld => rfl
  | cut before r rest after split inside rest_of stands => exact absurd ⟨r,by simp [split],inside⟩ unheld
  | split before r after result split below above added broken =>
    exact absurd ⟨r,by simp [split],Nat.le_of_lt below,Nat.le_of_lt above⟩ unheld

theorem lmb_free_splits {before after : List Region} {r : Region} (shape : lst.regions = before ++ r :: after)
    (below : r.base < base) (above : base+size < r.stop) (memory : Bool) :
    _lmb_free lst base size memory =
      lmb_add_region_flags { lst with regions := before ++ lower r base :: after } (base+size) (r.stop-(base+size)) r.label
        memory := by
  obtain ⟨regions,alloc,fail⟩ := lst
  subst shape
  obtain ⟨apart,bounded⟩ := placed
  have last : ∀ s ∈ before ++ r :: after, sub64 (add64 s.base s.size) 1 = s.stop-1 := by
    intro s member
    have full := apart.full s member
    have bound := bounded s member
    unfold Intervals.Interval.stop at *
    rw [add64_eq bound,sub64_eq (by omega) bound]
  have bound : r.stop < 2^64 := bounded r (by simp)
  have ends : sub64 (add64 base size) 1 = base+size-1 := by
    rw [add64_eq (by omega),sub64_eq (by omega) (by omega)]
  have found : (before ++ r :: after).findIdx? (fun s => decide (s.base ≤ base ∧ base+size-1 ≤ sub64 (add64 s.base s.size) 1)) =
      some before.length := by
    rw [findIdx?_eq_some_iff_getElem]
    refine ⟨by simp,?_,?_⟩
    · simp only [getElem_append_right le_rfl,Nat.sub_self,getElem_cons_zero,last r (by simp),
        decide_eq_true_eq]
      omega
    · intro j early
      have member : before[j] ∈ before := getElem_mem early
      have across := (apart_append.mp apart).2.2 before[j] member r mem_cons_self
      have full := apart.full before[j] (by simp [member])
      rw [getElem_append_left early,last before[j] (by simp [member])]
      simp only [decide_eq_true_eq]
      unfold Intervals.Interval.stop at *
      omega
  rw [_lmb_free]
  simp only [ends,found,rgn_at,last r (by simp)]
  rw [if_neg (by omega),if_neg (by omega),if_neg (by omega),add64_eq (by omega : base+size-1+1 < 2^64),
    sub64_eq (by omega : r.base ≤ base) (by omega),sub64_eq (by omega : base+size-1 ≤ r.stop-1) (by omega),set_at,
    show base+size-1+1 = base+size by omega,show r.stop-1-(base+size-1) = r.stop-(base+size) by omega]
  rfl

/-- A release of a range that no call has put in changes the bytes in use if and
    only if a region holds it. -/
theorem freed_iff (some_size : 0 < size) (wraps_not : base+size ≤ 2^64) (memory : Bool) :
    SameBytes lst.regions (_lmb_free lst base size memory).2.regions ↔ ¬ Held lst.regions base (base+size) := by
  constructor
  · intro same held
    have freed := lmb_free_spec placed.apart placed.bounded wraps_not memory
    have listed := (same base).mpr (held_value placed held (by omega))
    obtain ⟨_,outside⟩ := freed_within placed.apart (Nat.le_add_right _ _) freed listed
    exact outside (lmb_free_finds placed.bounded some_size held memory) ⟨le_rfl,by omega⟩
  · intro unheld
    rw [lmb_free_unheld placed wraps_not unheld]
    exact fun _ => Iff.rfl

/-- A release of no bytes cuts a region in two and joins it again, unless the
    list has failed to grow. -/
theorem freed_empty_iff (address : base < 2^64) (memory : Bool) :
    SameBytes lst.regions (_lmb_free lst base 0 memory).2.regions ↔
      ¬ (lst.fail = true ∧ ∃ r ∈ lst.regions, r.base < base ∧ base < r.stop) := by
  by_cases strict : ∃ r ∈ lst.regions, r.base < base ∧ base < r.stop
  · obtain ⟨r,member,below,above⟩ := strict
    obtain ⟨before,after,split⟩ := append_of_mem member
    have wholeApart : Apart (before ++ r :: after) := split ▸ placed.apart
    have wholeBounded : Bounded (before ++ r :: after) := split ▸ placed.bounded
    have bound := placed.bounded r member
    obtain ⟨apart,bounded⟩ := lower_keeps wholeApart wholeBounded below (Nat.le_of_lt above)
    have shrunk := lower_value wholeApart below (Nat.le_of_lt above)
    rw [← split] at shrunk
    rw [lmb_free_splits placed split below (by simpa using above) memory,Nat.add_zero]
    cases failed : lst.fail with
    | true =>
      rw [lmb_add_region_flags,if_pos rfl]
      refine iff_of_false (fun same => ?_) (fun clear => clear ⟨rfl,r,member,below,above⟩)
      have lost := (same base).mpr (held_value placed ⟨r,member,Nat.le_of_lt below,above⟩ (Nat.lt_succ_self _))
      simp [shrunk,erased,above] at lost
    | false =>
      have high : ∀ s ∈ after, base+(r.stop-base) ≤ s.base := by
        intro s behind
        have := (apart_cons.mp (apart_append.mp wholeApart).2.1).2.1 s behind
        omega
      obtain ⟨regions,adds,draws⟩ := @add_before ⟨before ++ lower r base :: after,lst.alloc,false⟩ base (r.stop-base) r.label
        rfl apart bounded (by omega) (by omega) before after (lower r base) rfl (lower_stop (Nat.le_of_lt below)) rfl high memory
      rw [adds]
      refine iff_of_true (SameBytes.of_eq ?_) (by simp)
      rw [drawn_value apart (by omega) draws,shrunk]
      funext x
      unfold painted erased
      by_cases back : base ≤ x ∧ x < r.stop
      · rw [if_pos (by omega),value_member placed.apart member (by omega)]
      · rw [if_neg (by omega),if_neg back]
  · refine iff_of_true ?_ (fun both => strict both.2)
    have freed := lmb_free_spec placed.apart placed.bounded (by omega : base+0 ≤ 2^64) memory
    generalize _lmb_free lst base 0 memory = result at freed
    cases freed with
    | unheld => exact SameBytes.of_eq rfl
    | cut before r rest after split inside rest_of stands =>
      refine SameBytes.of_eq ?_
      rw [split,erase_value (split ▸ placed.apart) inside stands]
      funext x
      rw [erased,if_neg (by omega)]
    | split before r after result split below above added broken =>
      exact absurd ⟨r,by simp [split],below,by simpa using above⟩ strict

end release

section undo
variable {lst : Alist} (placed : Placed lst.regions) {base size flags : Nat} (proper : Proper base size)
  (clear : Clear lst.regions base (base+size)) {memory : Bool}
  (added : (lmb_add_region_flags lst base size flags memory).1 = 0)
include placed proper clear added

omit clear in
theorem wedged_added {before after : List Region} {a b : Region} (split : lst.regions = before ++ a :: b :: after)
    (low : a.stop = base) (first : a.label = flags) (high : b.base = base+size) (second : b.label = flags) :
    lmb_add_region_flags lst base size flags memory =
      (0,⟨before ++ ⟨a.base,a.size+size+b.size,flags⟩ :: after,lst.alloc,false⟩) := by
  have sound : lst.fail = false := by
    by_contra failed
    rw [lmb_add_region_flags,if_pos (by simpa using failed)] at added
    simp at added
  have apart := placed.apart
  have bounded := placed.bounded
  have parts : lst.regions = before ++ [a] ++ b :: after := by rw [split]; simp
  obtain ⟨front,tail,across⟩ := apart_append.mp (parts ▸ apart)
  have early : ∀ r ∈ before ++ [a], r.stop ≤ base := by
    intro r member
    rcases mem_append.mp member with ahead | last
    · have := (apart_append.mp front).2.2 r ahead a (by simp)
      have := apart.full a (by simp [split])
      simp only [Intervals.Interval.stop] at *
      omega
    · rw [mem_singleton.mp last,low]
  have late : ∀ r ∈ b :: after, base+size ≤ r.base := by
    intro r member
    rcases mem_cons.mp member with rfl | behind
    · omega
    · have := (apart_cons.mp tail).2.1 r behind
      simp only [Intervals.Interval.stop] at this
      omega
  have cut : Cut lst.regions (before ++ [a]) [] (b :: after) base (base+size) :=
    ⟨by rw [parts,append_nil],early,by simp,late⟩
  have one := coalesce_before proper.1 proper.2 apart bounded cut rfl low first
  have fullA := apart.full a (by simp [split])
  have hullIs : hull base (base+size) flags [a] = (⟨a.base,a.size+size,flags⟩ : Region) := by
    simp only [Intervals.Interval.stop] at low
    rw [hull,hullBase_cons,hullStop_one,Nat.min_eq_right (by omega),Nat.max_eq_left (by simp only [Intervals.Interval.stop]; omega)]
    congr 1
    omega
  rw [hullIs,nil_append] at one
  have range : base < base+size := by have := proper.1; omega
  have hullApart : Apart (before ++ (⟨a.base,a.size+size,flags⟩ : Region) :: b :: after) := by
    rw [← hullIs]
    exact absorb_apart (parts ▸ apart) range (fun r member => early r (by simp [member])) late
  have hullBounded : Bounded (before ++ (⟨a.base,a.size+size,flags⟩ : Region) :: b :: after) := by
    intro r member
    have old := bounded r
    rw [split] at old
    have fits := proper.2
    simp only [mem_append,mem_cons] at member old
    rcases member with ahead | rfl | behind
    · exact old (.inl ahead)
    · simp only [Intervals.Interval.stop] at low ⊢
      omega
    · exact old (.inr (.inr behind))
  have two := coalesce_next_eq hullApart hullBounded true
  rw [if_pos ⟨by simp only [Intervals.Interval.stop] at *; omega,second.symm⟩] at two
  exact add_coalesced sound one two memory

omit clear in
theorem wedged_freed {before after : List Region} {a b : Region} (split : lst.regions = before ++ a :: b :: after)
    (low : a.stop = base) (first : a.label = flags) (high : b.base = base+size) (second : b.label = flags) :
    _lmb_free (lmb_add_region_flags lst base size flags memory).2 base size memory =
      lmb_add_region_flags ⟨before ++ a :: after,lst.alloc,false⟩ b.base b.size flags memory := by
  have joined := wedged_added placed proper added split low first high second
  have plain : ∀ r ∈ lst.regions, r.base < base+size → base < r.stop → r.label = LMB_NONE ∧ flags = LMB_NONE := by
    obtain ⟨_,tail,across⟩ := apart_append.mp (split ▸ placed.apart)
    obtain ⟨_,behindA,tail⟩ := apart_cons.mp tail
    obtain ⟨fullB,behindB,_⟩ := apart_cons.mp tail
    intro r member under above
    rw [split] at member
    simp only [mem_append,mem_cons] at member
    simp only [Intervals.Interval.stop] at *
    rcases member with ahead | rfl | rfl | behind
    · have := across r ahead a mem_cons_self
      omega
    · omega
    · omega
    · have := behindB r behind
      omega
  have again := add_region_flags_placed placed proper plain memory
  obtain ⟨some_size,fits⟩ := proper
  have fullA := placed.apart.full a (by simp [split])
  have fullB := placed.apart.full b (by simp [split])
  rw [joined] at again ⊢
  have stop_joined : (⟨a.base,a.size+size+b.size,flags⟩ : Region).stop = b.stop := by
    simp only [Intervals.Interval.stop] at low ⊢
    omega
  have below : (⟨a.base,a.size+size+b.size,flags⟩ : Region).base < base := by
    simp only [Intervals.Interval.stop] at low
    simp only
    omega
  have above : base+size < (⟨a.base,a.size+size+b.size,flags⟩ : Region).stop := by
    rw [stop_joined]
    simp only [Intervals.Interval.stop]
    omega
  have rest : lower ⟨a.base,a.size+size+b.size,flags⟩ base = a := by
    simp only [Intervals.Interval.stop] at low
    rw [lower,← first,show base-a.base = a.size by omega]
  have upper_size : b.stop-(base+size) = b.size := by
    simp only [Intervals.Interval.stop]
    omega
  rw [lmb_free_splits again rfl below above memory,rest,stop_joined,upper_size,high]

theorem added_back (other : ¬ Wedged lst.regions base (base+size) flags) :
    SameBytes lst.regions (_lmb_free (lmb_add_region_flags lst base size flags memory).2 base size memory).2.regions := by
  obtain ⟨some_size,fits⟩ := proper
  have plain := @clear_plain lst.regions base (base+size) flags clear
  have after := add_region_flags_placed placed ⟨some_size,fits⟩ plain memory
  rcases add_region_flags_cases placed ⟨some_size,fits⟩ plain memory with ⟨_,failed⟩ | ⟨_,before,inside,behind,cut,how⟩
  · rw [failed] at added
    simp at added
  generalize lmb_add_region_flags lst base size flags memory = result at added after how
  cases how with
  | full none_ full => simp at added
  | dropped regions drops apart bounded same =>
    have unheld : ¬ Held regions base (base+size) := by
      intro held
      refine held_value after held (by omega) ?_
      rw [same]
      exact clear_value clear ⟨le_rfl,by omega⟩
    rw [lmb_free_unheld after (Nat.le_of_lt fits) unheld memory]
    exact SameBytes.of_eq same
  | drawn regions alloc draws =>
    have painted_value := drawn_value placed.apart (by omega) draws
    have freed := lmb_free_spec after.apart after.bounded (Nat.le_of_lt fits) memory
    have found := lmb_free_finds after.bounded some_size (drawn_holds (by omega) draws) memory
    generalize _lmb_free ⟨regions,alloc,false⟩ base size memory = result at freed found
    cases freed with
    | unheld => exact absurd rfl found
    | cut front r rest back split within rest_of stands =>
      intro x
      rw [erase_value (split ▸ after.apart) within stands,← split,painted_value]
      unfold erased painted
      by_cases taken : base ≤ x ∧ x < base+size
      · simp only [if_pos taken,clear_value clear taken]
      · simp only [if_neg taken]
    | split front r back result split below above _ _ =>
      -- The bytes on both sides were in use before, with the flags of the range.
      have inside {x : Nat} (within : r.base ≤ x ∧ x < r.stop) :
          painted (value lst.regions) base (base+size) flags x = some r.label := by
        rw [← painted_value]
        have member : r ∈ regions := by
          rw [show regions = front ++ r :: back from split]
          simp
        exact value_member after.apart member within
      have label : flags = r.label := by
        have here := inside (x := base) (by omega)
        rw [painted,if_pos (by omega)] at here
        exact Option.some.inj here
      have low := inside (x := base-1) (by omega)
      have high := inside (x := base+size) (by omega)
      rw [painted,if_neg (by omega),← label] at low high
      exact absurd (wedged_of_bytes placed.apart (by omega) clear (by omega) low high) other

/-- A range that is put in and given back leaves the bytes in use that were in
    use before if and only if it was not between two regions whose upper one is
    lost. A list is never longer than it has place for. -/
theorem added_freed_iff (stocked : lst.regions.length ≤ lst.alloc) :
    SameBytes lst.regions (_lmb_free (lmb_add_region_flags lst base size flags memory).2 base size memory).2.regions ↔
      ¬ Severed lst.regions base (base+size) flags := by
  -- The list without the upper region, where it is added again.
  have without {before after : List Region} {a b : Region} (split : lst.regions = before ++ a :: b :: after) :
      Placed (before ++ a :: after) ∧ b.stop < 2^64 ∧ 0 < b.size ∧
        value (before ++ a :: after) = erased (value lst.regions) b.base b.stop ∧
        Cut (before ++ a :: after) (before ++ [a]) [] after b.base b.stop := by
    have parts : lst.regions = (before ++ [a]) ++ b :: after := by rw [split]; simp
    have apart : Apart ((before ++ [a]) ++ b :: after) := parts ▸ placed.apart
    have fewer : before ++ a :: after = (before ++ [a]) ++ ([] ++ after) := by simp
    obtain ⟨_,tail,across⟩ := apart_append.mp apart
    refine ⟨⟨?_,?_⟩,placed.bounded b (by simp [split]),placed.apart.full b (by simp [split]),?_,?_⟩
    · rw [fewer]
      exact remove_apart apart
    · intro r member
      refine placed.bounded r ?_
      rw [split]
      simp only [mem_append,mem_cons] at member ⊢
      tauto
    · rw [fewer,erase_value apart ⟨le_rfl,le_rfl⟩,← parts]
      intro x
      rw [value_nil,if_neg (by omega)]
    · exact ⟨by rw [fewer]; simp,fun r member => across r member b mem_cons_self,by simp,(apart_cons.mp tail).2.1⟩
  by_cases severed : Severed lst.regions base (base+size) flags
  · refine iff_of_false (fun same => ?_) (not_not.mpr severed)
    obtain ⟨before,a,b,c,s,after,split,low,first,high,second,touch,other,joins⟩ := severed
    obtain ⟨fewer,bound,full,lost,cut⟩ := without split
    have loose : Loose (before ++ [a]) b.base flags := by
      intro r member touches
      have ordered := cut.low r member
      have some_size := proper.1
      obtain ⟨front,_,_⟩ := apart_append.mp (fewer.apart)
      rcases mem_append.mp member with ahead | last
      · have := (apart_append.mp fewer.apart).2.2 r ahead a mem_cons_self
        have := fewer.apart.full a (by simp)
        simp only [Intervals.Interval.stop] at *
        omega
      · rw [mem_singleton.mp last] at touches
        omega
    have drops := @add_drops ⟨before ++ a :: c :: s :: after,lst.alloc,false⟩ b.base b.size flags rfl fewer.apart fewer.bounded
      full bound (before ++ [a]) after c s (by simp) cut.low loose touch other joins memory
    have listed := (same b.base).mpr (held_value placed ⟨b,by simp [split],le_rfl,le_rfl⟩
      (by simp only [Intervals.Interval.stop]; omega))
    rw [wedged_freed placed proper added split low first high second,drops] at listed
    refine listed ?_
    show value (before ++ [a] ++ join c s :: after) b.base = none
    rw [join_value joins.1 joins.2]
    have gone := congrFun lost b.base
    rw [erased,if_pos (by simp only [Intervals.Interval.stop]; omega)] at gone
    simpa using gone
  · refine iff_of_true ?_ severed
    by_cases wedged : Wedged lst.regions base (base+size) flags
    · obtain ⟨before,a,b,after,split,low,first,high,second⟩ := wedged
      obtain ⟨fewer,bound,full,lost,cut⟩ := without split
      have shorter : (before ++ a :: after).length < lst.alloc := by
        rw [split] at stocked
        simp only [length_append,length_cons] at stocked ⊢
        omega
      have back := @add_region_flags_spec ⟨before ++ a :: after,lst.alloc,false⟩ (before ++ [a]) [] after b.base b.size flags
        rfl fewer.apart fewer.bounded full bound cut (by simp) memory
      rw [wedged_freed placed proper added split low first high second]
      generalize lmb_add_region_flags ⟨before ++ a :: after,lst.alloc,false⟩ b.base b.size flags memory = result at back
      cases back with
      | full none_ full => exact absurd full (Nat.ne_of_lt shorter)
      | dropped regions drops apart bounded same =>
        obtain ⟨_,_,c,s,rest,rfl,touch,other,joins⟩ := drops
        exact absurd ⟨before,a,b,c,s,rest,split,low,first,high,second,touch,other,joins⟩ severed
      | drawn regions alloc draws =>
        refine SameBytes.of_eq ?_
        have range : b.base < b.base+b.size := by omega
        have whole := drawn_value fewer.apart range draws
        rw [whole,lost]
        funext x
        unfold painted erased
        by_cases inside : b.base ≤ x ∧ x < b.base+b.size
        · rw [if_pos inside,value_member placed.apart (by simp [split] : b ∈ lst.regions) inside,second]
        · rw [if_neg inside]
          exact if_neg inside
    · exact added_back placed proper clear added wedged

end undo
end UBoot.Lmb
