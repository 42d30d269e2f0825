import Mathlib.Tactic

/-!
Lists of labelled intervals of natural numbers. A list that is `Apart` is
sorted, has no empty interval and no overlap; one that is `Merged` besides has
no two neighbours with one label that touch. `value` is the partial function
from points to labels that a list stands for, and `painted` its update on a
range. The two moves below, drawing a range and the intervals that touch it
into one and joining two neighbours, are compared with what they mean for it.
-/
namespace UBoot.Intervals
open List
universe u

structure Interval (Label : Type u) where
  base : Nat
  size : Nat
  label : Label
  deriving DecidableEq, Repr

section
variable {Label : Type u}

def Interval.stop (r : Interval Label) : Nat := r.base+r.size

structure Apart (rs : List (Interval Label)) : Prop where
  full : ∀ r ∈ rs, 0 < r.size
  sorted : rs.Pairwise fun r s => r.stop ≤ s.base

def Merged (rs : List (Interval Label)) : Prop := rs.IsChain fun r s => ¬ (r.stop = s.base ∧ r.label = s.label)

def value (rs : List (Interval Label)) (x : Nat) : Option Label :=
  (rs.find? fun r => r.base ≤ x ∧ x < r.stop).map Interval.label

def painted (m : Nat → Option Label) (lo hi : Nat) (label : Label) (x : Nat) : Option Label :=
  if lo ≤ x ∧ x < hi then some label else m x

def erased (m : Nat → Option Label) (lo hi : Nat) (x : Nat) : Option Label := if lo ≤ x ∧ x < hi then none else m x

@[simp] theorem value_nil (x : Nat) : value ([] : List (Interval Label)) x = none := rfl

theorem value_cons (r : Interval Label) (rs : List (Interval Label)) (x : Nat) :
    value (r :: rs) x = if r.base ≤ x ∧ x < r.stop then some r.label else value rs x := by
  unfold value
  by_cases inside : r.base ≤ x ∧ x < r.stop
  · simp [inside]
  · simp [inside]

theorem value_append (rs ss : List (Interval Label)) (x : Nat) :
    value (rs ++ ss) x = (value rs x).or (value ss x) := by
  unfold value
  rw [find?_append]
  cases rs.find? fun r => decide (r.base ≤ x ∧ x < r.stop) <;> rfl

theorem value_eq_none {rs : List (Interval Label)} {x : Nat} (clear : ∀ r ∈ rs, x < r.base ∨ r.stop ≤ x) :
    value rs x = none := by
  induction rs with
  | nil => rfl
  | cons r rs ih =>
    have here := clear r mem_cons_self
    have outside : ¬ (r.base ≤ x ∧ x < r.stop) := by omega
    rw [value_cons,if_neg outside]
    exact ih (fun s member => clear s (mem_cons_of_mem _ member))

theorem apart_nil : Apart ([] : List (Interval Label)) := ⟨by simp,List.Pairwise.nil⟩

theorem apart_cons {r : Interval Label} {rs : List (Interval Label)} :
    Apart (r :: rs) ↔ 0 < r.size ∧ (∀ s ∈ rs, r.stop ≤ s.base) ∧ Apart rs := by
  constructor
  · rintro ⟨full,sorted⟩
    rw [pairwise_cons] at sorted
    exact ⟨full r mem_cons_self,sorted.1,fun s member => full s (mem_cons_of_mem _ member),sorted.2⟩
  · rintro ⟨first,before,rest⟩
    refine ⟨?_,pairwise_cons.mpr ⟨before,rest.sorted⟩⟩
    intro s member
    rcases mem_cons.mp member with rfl | member
    · exact first
    · exact rest.full s member

theorem apart_append {rs ss : List (Interval Label)} :
    Apart (rs ++ ss) ↔ Apart rs ∧ Apart ss ∧ ∀ r ∈ rs, ∀ s ∈ ss, r.stop ≤ s.base := by
  constructor
  · rintro ⟨full,sorted⟩
    obtain ⟨first,second,across⟩ := pairwise_append.mp sorted
    exact ⟨⟨fun r member => full r (mem_append_left _ member),first⟩,
      ⟨fun s member => full s (mem_append_right _ member),second⟩,across⟩
  · rintro ⟨first,second,across⟩
    refine ⟨?_,pairwise_append.mpr ⟨first.sorted,second.sorted,across⟩⟩
    intro r member
    rcases mem_append.mp member with member | member
    · exact first.full r member
    · exact second.full r member

/-- A range cuts a list into what lies before it, what it overlaps, and what
    lies behind it. -/
theorem cut_at {rs : List (Interval Label)} (apart : Apart rs) (lo hi : Nat) :
    ∃ before inside after, rs = before ++ inside ++ after ∧ (∀ r ∈ before, r.stop ≤ lo) ∧
      (∀ r ∈ inside, r.base < hi ∧ lo < r.stop) ∧ (∀ r ∈ after, hi ≤ r.base) := by
  induction rs with
  | nil => exact ⟨[],[],[],rfl,by simp,by simp,by simp⟩
  | cons r rs ih =>
    obtain ⟨full,behind,rest⟩ := apart_cons.mp apart
    obtain ⟨before,inside,after,rfl,low,across,high⟩ := ih rest
    by_cases early : r.stop ≤ lo
    · refine ⟨r :: before,inside,after,rfl,?_,across,high⟩
      intro s member
      rcases mem_cons.mp member with rfl | member
      · exact early
      · exact low s member
    -- Behind an interval that ends inside or behind the range nothing lies before it.
    have none_before : before = [] := by
      cases before with
      | nil => rfl
      | cons s before =>
        have one := low s mem_cons_self
        have two := behind s (by simp)
        unfold Interval.stop at *
        omega
    subst none_before
    by_cases late : hi ≤ r.base
    · refine ⟨[],[],r :: (inside ++ after),rfl,by simp,by simp,?_⟩
      intro s member
      rcases mem_cons.mp member with rfl | member
      · exact late
      · have := behind s (by simpa using member)
        unfold Interval.stop at this
        omega
    · refine ⟨[],r :: inside,after,rfl,by simp,?_,high⟩
      intro s member
      rcases mem_cons.mp member with rfl | member
      · omega
      · exact across s member

/-- The first point of a range and of a sorted list of intervals. -/
def hullBase (lo : Nat) : List (Interval Label) → Nat
  | [] => lo
  | r :: _ => min lo r.base

/-- The first point behind a range and a sorted list of intervals. -/
def hullStop (hi : Nat) (rs : List (Interval Label)) : Nat :=
  match rs.getLast? with
  | none => hi
  | some r => max hi r.stop

/-- One interval in place of the range and the intervals that touch it. -/
def hull (lo hi : Nat) (label : Label) (rs : List (Interval Label)) : Interval Label :=
  ⟨hullBase lo rs,hullStop hi rs-hullBase lo rs,label⟩

@[simp] theorem hullBase_nil (lo : Nat) : hullBase lo ([] : List (Interval Label)) = lo := rfl
@[simp] theorem hullBase_cons (lo : Nat) (r : Interval Label) (rs : List (Interval Label)) :
    hullBase lo (r :: rs) = min lo r.base := rfl
@[simp] theorem hullStop_nil (hi : Nat) : hullStop hi ([] : List (Interval Label)) = hi := rfl
@[simp] theorem hullStop_one (hi : Nat) (r : Interval Label) : hullStop hi [r] = max hi r.stop := rfl
theorem hullStop_cons (hi : Nat) (r s : Interval Label) (rs : List (Interval Label)) :
    hullStop hi (r :: s :: rs) = hullStop hi (s :: rs) := by
  simp [hullStop,getLast?_cons_cons]

theorem hullBase_le (lo : Nat) (rs : List (Interval Label)) : hullBase lo rs ≤ lo := by
  cases rs with
  | nil => exact le_rfl
  | cons r rs => exact min_le_left _ _

theorem le_hullStop (hi : Nat) (rs : List (Interval Label)) : hi ≤ hullStop hi rs := by
  unfold hullStop
  split
  · exact le_rfl
  · exact le_max_left _ _

theorem hull_stop {lo hi : Nat} (range : lo < hi) (label : Label) (rs : List (Interval Label)) :
    (hull lo hi label rs).stop = hullStop hi rs := by
  have := hullBase_le lo rs
  have := le_hullStop hi rs
  simp only [hull,Interval.stop]
  omega

theorem value_touching {rs : List (Interval Label)} (apart : Apart rs) {lo hi : Nat} {label : Label}
    (touching : ∀ r ∈ rs, r.base ≤ hi ∧ lo ≤ r.stop ∧ r.label = label) {x : Nat} (outside : ¬ (lo ≤ x ∧ x < hi)) :
    value rs x = if hullBase lo rs ≤ x ∧ x < hullStop hi rs then some label else none := by
  induction rs with
  | nil =>
    rw [hullBase_nil,hullStop_nil,if_neg outside]
    rfl
  | cons r rs ih =>
    obtain ⟨full,behind,rest⟩ := apart_cons.mp apart
    obtain ⟨low,high,named⟩ := touching r mem_cons_self
    rw [value_cons,named]
    cases rs with
    | nil =>
      rw [hullBase_cons,hullStop_one,value_nil]
      split_ifs <;> first | rfl | omega
    | cons s rs =>
      have later := ih rest (fun t member => touching t (mem_cons_of_mem _ member))
      have next := behind s mem_cons_self
      obtain ⟨nextLow,nextHigh,_⟩ := touching s (by simp)
      have reach := le_hullStop hi (s :: rs)
      rw [later,hullStop_cons,hullBase_cons,hullBase_cons]
      unfold Interval.stop at *
      split_ifs <;> first | rfl | omega

section absorb
variable {before touching after : List (Interval Label)} {lo hi : Nat} {label : Label}
  (apart : Apart (before ++ touching ++ after))
include apart

theorem before_hull (low : ∀ r ∈ before, r.stop ≤ lo) : ∀ r ∈ before, r.stop ≤ hullBase lo touching := by
  intro r member
  have early := low r member
  cases touching with
  | nil => exact early
  | cons s rest =>
    obtain ⟨first,_,_⟩ := apart_append.mp apart
    have across := (apart_append.mp first).2.2 r member s mem_cons_self
    rw [hullBase_cons]
    omega

theorem hull_after (high : ∀ r ∈ after, hi ≤ r.base) : ∀ r ∈ after, hullStop hi touching ≤ r.base := by
  intro r member
  have late := high r member
  unfold hullStop
  split
  · exact late
  · rename_i s last
    have inside : s ∈ before ++ touching := mem_append_right _ (mem_of_getLast? last)
    have across := (apart_append.mp apart).2.2 s inside r member
    omega

/-- The hull takes the place of the intervals it is drawn over. -/
theorem absorb_apart (range : lo < hi) (low : ∀ r ∈ before, r.stop ≤ lo) (high : ∀ r ∈ after, hi ≤ r.base) :
    Apart (before ++ hull lo hi label touching :: after) := by
  obtain ⟨front,back,_⟩ := apart_append.mp apart
  obtain ⟨first,_,_⟩ := apart_append.mp front
  have lower := hullBase_le lo touching
  have upper := le_hullStop hi touching
  have stop := hull_stop range label touching
  refine apart_append.mpr ⟨first,apart_cons.mpr ⟨?_,?_,back⟩,?_⟩
  · simp only [hull]
    omega
  · rw [stop]
    exact hull_after apart high
  · intro r member s later
    have early := before_hull apart low r member
    rcases mem_cons.mp later with rfl | later
    · exact early
    · have late := hull_after apart high s later
      omega

theorem absorb_value (range : lo < hi) (low : ∀ r ∈ before, r.stop ≤ lo)
    (meets : ∀ r ∈ touching, r.base ≤ hi ∧ lo ≤ r.stop ∧ r.label = label) :
    value (before ++ hull lo hi label touching :: after) =
    painted (value (before ++ touching ++ after)) lo hi label := by
  funext x
  obtain ⟨front,_,_⟩ := apart_append.mp apart
  obtain ⟨_,middle,_⟩ := apart_append.mp front
  have lower := hullBase_le lo touching
  have upper := le_hullStop hi touching
  have stop := hull_stop range label touching
  have base : (hull lo hi label touching).base = hullBase lo touching := rfl
  have named : (hull lo hi label touching).label = label := rfl
  rw [painted,value_append,value_append,value_append,value_cons,stop,base,named]
  by_cases inside : lo ≤ x ∧ x < hi
  · have clear : value before x = none := value_eq_none (fun r member => .inr (by have := low r member; omega))
    have covered : hullBase lo touching ≤ x ∧ x < hullStop hi touching := by omega
    rw [if_pos inside,clear,if_pos covered]
    rfl
  · rw [if_neg inside,value_touching middle meets inside,Option.or_assoc]
    split_ifs <;> rfl

end absorb

def join (r s : Interval Label) : Interval Label := ⟨r.base,r.size+s.size,r.label⟩

section joining
variable {before after : List (Interval Label)} {r s : Interval Label}

theorem join_apart (apart : Apart (before ++ r :: s :: after)) (touch : r.stop = s.base) :
    Apart (before ++ join r s :: after) := by
  obtain ⟨first,rest,across⟩ := apart_append.mp apart
  obtain ⟨fullR,_,tail⟩ := apart_cons.mp rest
  obtain ⟨fullS,behind,back⟩ := apart_cons.mp tail
  unfold Interval.stop at *
  refine apart_append.mpr ⟨first,apart_cons.mpr ⟨?_,?_,back⟩,?_⟩
  · simp only [join]
    omega
  · intro t member
    have := behind t member
    simp only [join,Interval.stop]
    omega
  · intro t early u later
    rcases mem_cons.mp later with rfl | later
    · exact across t early r mem_cons_self
    · exact across t early u (by simp [later])

/-- Joining neighbours of one label changes no value. -/
theorem join_value (touch : r.stop = s.base) (same : r.label = s.label) :
    value (before ++ join r s :: after) = value (before ++ r :: s :: after) := by
  funext x
  have there : (if (join r s).base ≤ x ∧ x < (join r s).stop then some (join r s).label else value after x) =
      if r.base ≤ x ∧ x < r.stop then some r.label
      else if s.base ≤ x ∧ x < s.stop then some r.label else value after x := by
    have stop : (join r s).stop = s.stop := by unfold Interval.stop at *; simp only [join]; omega
    have one : r.base ≤ r.stop := Nat.le_add_right _ _
    have two : s.base ≤ s.stop := Nat.le_add_right _ _
    rw [stop,show (join r s).base = r.base from rfl,show (join r s).label = r.label from rfl]
    by_cases first : x < r.stop
    · have later : ¬ (s.base ≤ x ∧ x < s.stop) := by omega
      rw [if_neg later]
      congr 1
      rw [eq_iff_iff]
      omega
    · have former : ¬ (r.base ≤ x ∧ x < r.stop) := by omega
      rw [if_neg former]
      congr 1
      rw [eq_iff_iff]
      omega
  rw [value_append,value_append,value_cons,value_cons,value_cons,← same,there]

end joining

theorem merged_append {rs ss : List (Interval Label)} :
    Merged (rs ++ ss) ↔ Merged rs ∧ Merged ss ∧
      ∀ r ∈ rs.getLast?, ∀ s ∈ ss.head?, ¬ (r.stop = s.base ∧ r.label = s.label) :=
  isChain_append

section cutting
variable {before after : List (Interval Label)} {r : Interval Label}

/-- The label at a point of an interval of the list. -/
theorem value_inside (apart : Apart (before ++ r :: after)) {x : Nat} (inside : r.base ≤ x ∧ x < r.stop) :
    value (before ++ r :: after) x = some r.label := by
  obtain ⟨_,_,across⟩ := apart_append.mp apart
  have clear : value before x = none := value_eq_none (fun t member => by
    have := across t member r mem_cons_self
    omega)
  rw [value_append,value_cons,clear,if_pos inside]
  rfl

theorem value_member {rs : List (Interval Label)} (apart : Apart rs) (member : r ∈ rs) {x : Nat}
    (inside : r.base ≤ x ∧ x < r.stop) : value rs x = some r.label := by
  obtain ⟨before,after,rfl⟩ := append_of_mem member
  exact value_inside apart inside

theorem value_some {rs : List (Interval Label)} (apart : Apart rs) {x : Nat} {label : Label}
    (found : value rs x = some label) : ∃ r ∈ rs, (r.base ≤ x ∧ x < r.stop) ∧ r.label = label := by
  by_contra missing
  have clear : value rs x ≠ none := by simp [found]
  refine clear (value_eq_none fun r member => ?_)
  by_contra inside
  have within : r.base ≤ x ∧ x < r.stop := by omega
  rw [value_member apart member within] at found
  exact missing ⟨r,member,within,Option.some.inj found⟩

/-- Intervals with a common point are the same. -/
theorem apart_unique {rs : List (Interval Label)} (apart : Apart rs) {r s : Interval Label} (first : r ∈ rs) (second : s ∈ rs)
    {x : Nat} (inR : r.base ≤ x ∧ x < r.stop) (inS : s.base ≤ x ∧ x < s.stop) : r = s := by
  induction rs with
  | nil => contradiction
  | cons t rs ih =>
    obtain ⟨_,before,rest⟩ := apart_cons.mp apart
    rcases mem_cons.mp first with rfl | later
    · rcases mem_cons.mp second with rfl | behind
      · rfl
      · have := before s behind
        omega
    · rcases mem_cons.mp second with rfl | behind
      · have := before r later
        omega
      · exact ih rest later behind

/-- Intervals that stand for one without a range in place of it. -/
theorem erase_value (apart : Apart (before ++ r :: after)) {lo hi : Nat} (inside : r.base ≤ lo ∧ hi ≤ r.stop)
    {rest : List (Interval Label)}
    (stands : ∀ x, value rest x = if (r.base ≤ x ∧ x < r.stop) ∧ ¬ (lo ≤ x ∧ x < hi) then some r.label else none) :
    value (before ++ (rest ++ after)) = erased (value (before ++ r :: after)) lo hi := by
  funext x
  obtain ⟨_,tail,across⟩ := apart_append.mp apart
  obtain ⟨_,behind,_⟩ := apart_cons.mp tail
  rw [erased,value_append,value_append,value_append,value_cons,stands]
  by_cases gone : lo ≤ x ∧ x < hi
  · have clearBefore : value before x = none := value_eq_none (fun t member => by
      have := across t member r mem_cons_self
      omega)
    have clearAfter : value after x = none := value_eq_none (fun t member => by
      have := behind t member
      omega)
    have cut : ¬ ((r.base ≤ x ∧ x < r.stop) ∧ ¬ (lo ≤ x ∧ x < hi)) := by omega
    rw [if_pos gone,clearBefore,clearAfter,if_neg cut]
    rfl
  · rw [if_neg gone]
    by_cases within : r.base ≤ x ∧ x < r.stop
    · rw [if_pos ⟨within,gone⟩,if_pos within]
      rfl
    · rw [if_neg (fun both => within both.1),if_neg within]
      rfl

theorem value_one (r : Interval Label) (x : Nat) : value [r] x = if r.base ≤ x ∧ x < r.stop then some r.label else none := by
  rw [value_cons,value_nil]

theorem shrink_apart {r' : Interval Label} (apart : Apart (before ++ r :: after)) (base : r.base ≤ r'.base)
    (stop : r'.stop ≤ r.stop) (full : 0 < r'.size) : Apart (before ++ r' :: after) := by
  obtain ⟨first,tail,across⟩ := apart_append.mp apart
  obtain ⟨_,behind,back⟩ := apart_cons.mp tail
  refine apart_append.mpr ⟨first,apart_cons.mpr ⟨full,?_,back⟩,?_⟩
  · intro s member
    exact le_trans stop (behind s member)
  · intro t early s later
    rcases mem_cons.mp later with rfl | later
    · exact le_trans (across t early r mem_cons_self) base
    · exact across t early s (mem_cons_of_mem _ later)

theorem shrink_merged {r' : Interval Label} (apart : Apart (before ++ r :: after)) (base : r.base ≤ r'.base)
    (stop : r'.stop ≤ r.stop) (same : r'.label = r.label) (merged : Merged (before ++ r :: after)) :
    Merged (before ++ r' :: after) := by
  obtain ⟨_,tail,across⟩ := apart_append.mp apart
  obtain ⟨_,behind,_⟩ := apart_cons.mp tail
  obtain ⟨first,second,between⟩ := merged_append.mp merged
  obtain ⟨next,back⟩ := isChain_cons.mp second
  refine merged_append.mpr ⟨first,isChain_cons.mpr ⟨?_,back⟩,?_⟩
  · intro s head
    rintro ⟨touch,label⟩
    have := behind s (mem_of_mem_head? head)
    exact next s head ⟨by omega,same ▸ label⟩
  · intro t last s head
    cases head
    rintro ⟨touch,label⟩
    have := across t (mem_of_getLast? last) r mem_cons_self
    exact between t last r rfl ⟨by omega,label.trans same⟩

theorem remove_apart (apart : Apart (before ++ r :: after)) : Apart (before ++ after) := by
  obtain ⟨first,tail,across⟩ := apart_append.mp apart
  exact apart_append.mpr ⟨first,(apart_cons.mp tail).2.2,fun t early s later =>
    across t early s (mem_cons_of_mem _ later)⟩

theorem remove_merged (apart : Apart (before ++ r :: after)) (merged : Merged (before ++ r :: after)) :
    Merged (before ++ after) := by
  obtain ⟨_,tail,across⟩ := apart_append.mp apart
  obtain ⟨full,behind,_⟩ := apart_cons.mp tail
  obtain ⟨first,second,_⟩ := merged_append.mp merged
  refine merged_append.mpr ⟨first,(isChain_cons.mp second).2,?_⟩
  intro t last s head
  rintro ⟨touch,_⟩
  have one := across t (mem_of_getLast? last) r mem_cons_self
  have two := behind s (mem_of_mem_head? head)
  unfold Interval.stop at *
  omega

end cutting

/-- A range whose two ends touch intervals with its label while it overlaps
    others between them. -/
def Bridges (rs : List (Interval Label)) (lo hi : Nat) (label : Label) : Prop :=
  ∃ before r inside s after, rs = before ++ r :: inside ++ s :: after ∧ inside ≠ [] ∧
    r.stop = lo ∧ r.label = label ∧ s.base = hi ∧ s.label = label

/-- A list into which a range is drawn: the intervals that touch it and have its
    label are drawn into one with it, and so is, or is not, the next one. -/
inductive Drawn (rs : List (Interval Label)) (lo hi : Nat) (label : Label) : List (Interval Label) → Prop
  | alone (before touching after : List (Interval Label)) (split : rs = before ++ touching ++ after)
      (low : ∀ r ∈ before, r.stop ≤ lo) (loose : ∀ r ∈ before, ¬ (r.stop = lo ∧ r.label = label))
      (meets : ∀ r ∈ touching, r.base ≤ hi ∧ lo ≤ r.stop ∧ r.label = label) (high : ∀ r ∈ after, hi ≤ r.base)
      (gap : Merged rs → ¬ Bridges rs lo hi label →
        ∀ s ∈ after.head?, ¬ (hullStop hi touching = s.base ∧ s.label = label)) :
      Drawn rs lo hi label (before ++ hull lo hi label touching :: after)
  | joined (before touching : List (Interval Label)) (s : Interval Label) (after : List (Interval Label))
      (split : rs = before ++ touching ++ s :: after) (low : ∀ r ∈ before, r.stop ≤ lo)
      (loose : ∀ r ∈ before, ¬ (r.stop = lo ∧ r.label = label))
      (meets : ∀ r ∈ touching, r.base ≤ hi ∧ lo ≤ r.stop ∧ r.label = label) (high : ∀ r ∈ s :: after, hi ≤ r.base)
      (touch : hullStop hi touching = s.base) (same : s.label = label) :
      Drawn rs lo hi label (before ++ join (hull lo hi label touching) s :: after)

section drawn
variable {rs rs' : List (Interval Label)} {lo hi : Nat} {label : Label}

theorem drawn_apart (apart : Apart rs) (range : lo < hi) (drawn : Drawn rs lo hi label rs') : Apart rs' := by
  cases drawn with
  | alone before touching after split low loose meets high gap =>
    subst split
    exact absorb_apart apart range low high
  | joined before touching s after split low loose meets high touch same =>
    subst split
    exact join_apart (absorb_apart apart range low high) (by rw [hull_stop range,touch])

theorem drawn_value (apart : Apart rs) (range : lo < hi) (drawn : Drawn rs lo hi label rs') :
    value rs' = painted (value rs) lo hi label := by
  cases drawn with
  | alone before touching after split low loose meets high gap =>
    subst split
    exact absorb_value apart range low meets
  | joined before touching s after split low loose meets high touch same =>
    subst split
    rw [join_value (by rw [hull_stop range,touch]) same.symm,absorb_value apart range low meets]

/-- One interval holds the range that was drawn. -/
theorem drawn_holds (range : lo < hi) (drawn : Drawn rs lo hi label rs') : ∃ r ∈ rs', r.base ≤ lo ∧ hi ≤ r.stop := by
  cases drawn with
  | alone before touching after split low loose meets high gap =>
    refine ⟨hull lo hi label touching,by simp,hullBase_le lo touching,?_⟩
    rw [hull_stop range]
    exact le_hullStop hi touching
  | joined before touching s after split low loose meets high touch same =>
    refine ⟨join (hull lo hi label touching) s,by simp,hullBase_le lo touching,?_⟩
    have stop := hull_stop range label touching
    have reaches := le_hullStop hi touching
    simp only [join,Interval.stop] at stop ⊢
    omega

/-- No interval that is drawn reaches behind the range and the old ones. -/
theorem drawn_stop (range : lo < hi) (drawn : Drawn rs lo hi label rs') {bound : Nat} (limit : hi < bound)
    (old : ∀ r ∈ rs, r.stop < bound) : ∀ r ∈ rs', r.stop < bound := by
  have hull_bound {touching : List (Interval Label)} (inside : ∀ r ∈ touching, r.stop < bound) :
      hullStop hi touching < bound := by
    unfold hullStop
    split
    · exact limit
    · rename_i last
      have := inside _ (mem_of_getLast? last)
      omega
  cases drawn with
  | alone before touching after split low loose meets high gap =>
    subst split
    intro r member
    rcases mem_append.mp member with early | later
    · exact old r (by simp [early])
    · rcases mem_cons.mp later with rfl | later
      · rw [hull_stop range]
        exact hull_bound (fun s inside => old s (by simp [inside]))
      · exact old r (by simp [later])
  | joined before touching s after split low loose meets high touch same =>
    subst split
    intro r member
    rcases mem_append.mp member with early | later
    · exact old r (by simp [early])
    · rcases mem_cons.mp later with rfl | later
      · have one := hull_stop range label touching
        have two := old s (by simp)
        unfold Interval.stop at *
        simp only [join]
        omega
      · exact old r (by simp [later])

/-- A range that overlaps no interval bridges none. -/
theorem not_bridges (apart : Apart rs)
    (clear : ∀ r ∈ rs, r.stop ≤ lo ∨ hi ≤ r.base) : ¬ Bridges rs lo hi label := by
  rintro ⟨before,r,inside,s,after,rfl,some_inside,low,_,high,_⟩
  cases inside with
  | nil => exact some_inside rfl
  | cons m inside =>
    have between := clear m (by simp)
    have full := apart.full m (by simp)
    obtain ⟨front,_,across⟩ := apart_append.mp apart
    have first := (apart_cons.mp (apart_append.mp front).2.1).2.1 m mem_cons_self
    have second := across m (by simp) s mem_cons_self
    simp only [Interval.stop] at *
    omega

theorem bridges_length (bridges : Bridges rs lo hi label) : 3 ≤ rs.length := by
  obtain ⟨before,r,inside,s,after,rfl,some_inside,_⟩ := bridges
  have := length_pos_iff.mpr some_inside
  simp only [length_append,length_cons]
  omega

/-- A drawn range leaves no two neighbours with one label that touch, unless it
    bridges two of them over others. -/
theorem drawn_merged (range : lo < hi) (merged : Merged rs) (apartEnds : ¬ Bridges rs lo hi label)
    (drawn : Drawn rs lo hi label rs') : Merged rs' := by
  -- The interval before the hull does not touch it: it is loose, or the list was not merged.
  have front {before touching tail : List (Interval Label)} (split : rs = before ++ (touching ++ tail))
      (loose : ∀ r ∈ before, ¬ (r.stop = lo ∧ r.label = label))
      (meets : ∀ r ∈ touching, r.base ≤ hi ∧ lo ≤ r.stop ∧ r.label = label) :
      ∀ r ∈ before.getLast?, ¬ (r.stop = hullBase lo touching ∧ r.label = label) := by
    intro r last
    rintro ⟨touch,same⟩
    have member := mem_of_getLast? last
    cases touching with
    | nil => exact loose r member ⟨touch,same⟩
    | cons t touching =>
      rw [hullBase_cons] at touch
      by_cases inner : lo ≤ t.base
      · exact loose r member ⟨by omega,same⟩
      · rw [split] at merged
        refine (merged_append.mp merged).2.2 r last t rfl ⟨by omega,?_⟩
        rw [same,(meets t mem_cons_self).2.2]
  cases drawn with
  | alone before touching after split low loose meets high gap =>
    have separate := gap merged apartEnds
    have parts := split
    rw [append_assoc] at parts
    rw [split] at merged
    obtain ⟨first,back,_⟩ := merged_append.mp merged
    refine merged_append.mpr ⟨(merged_append.mp first).1,?_,?_⟩
    · refine isChain_cons.mpr ⟨?_,back⟩
      intro s head
      rw [hull_stop range]
      rintro ⟨touch,same⟩
      exact separate s head ⟨touch,same.symm⟩
    · intro r last s head
      cases head
      exact front parts loose meets r last
  | joined before touching s after split low loose meets high touch same =>
    have parts := split
    rw [append_assoc] at parts
    rw [split] at merged
    obtain ⟨first,back,_⟩ := merged_append.mp merged
    refine merged_append.mpr ⟨(merged_append.mp first).1,?_,?_⟩
    · obtain ⟨next,rest⟩ := isChain_cons.mp back
      refine isChain_cons.mpr ⟨?_,rest⟩
      intro t head
      have stop : (join (hull lo hi label touching) s).stop = s.stop := by
        have one := hull_stop range label touching
        unfold Interval.stop at *
        simp only [join]
        omega
      rw [stop]
      rintro ⟨meet,equal⟩
      refine next t head ⟨meet,?_⟩
      rw [same]
      exact equal
    · intro r last t head
      cases head
      exact front parts loose meets r last

end drawn
end
end UBoot.Intervals
