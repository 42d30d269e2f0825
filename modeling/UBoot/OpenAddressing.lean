import Mathlib.Tactic
import Mathlib.Data.Nat.ModEq
import Mathlib.Order.Interval.Finset.Nat

/-!
Tables with open addressing. A table is a function from indices to cells, and every key has a probe
path through the indices. `Reached` says that the path of a key comes to an index over cells that
are not free, and a table is `Probed` when every live cell is reached by its own key and no key is
live twice. The last part is the walk that steps back by a fixed stride.
-/
namespace UBoot.OpenAddressing
open Option Function
universe u v

inductive Cell (Key : Type u) (Value : Type v) where
  | free
  | deleted
  | live (key : Key) (value : Value)

section
variable {Key : Type u} {Value : Type v}

def Cell.IsLive : Cell Key Value → Prop
  | .live _ _ => True
  | _ => False

instance (c : Cell Key Value) : Decidable c.IsLive :=
  match c with
  | .free => .isFalse id
  | .deleted => .isFalse id
  | .live _ _ => .isTrue trivial

variable (path : Key → Nat → Nat) (cell : Nat → Cell Key Value)

/-- The path of a key comes to an index over cells that are not free. -/
def Reached (key : Key) (i : Nat) : Prop := ∃ j, path key j = i ∧ ∀ m < j, cell (path key m) ≠ .free

/-- Every live cell is reached by its key, and no key is live twice. -/
structure Probed : Prop where
  reached : ∀ i key value, cell i = .live key value → Reached path cell key i
  unique : ∀ i i' key value value', cell i = .live key value → cell i' = .live key value' → i = i'

def Holds (key : Key) (value : Value) : Prop := ∃ i, cell i = .live key value

def Absent (key : Key) : Prop := ∀ i value, cell i ≠ .live key value

variable {path cell}

/-- A key that is not met before a free cell of its path is absent. -/
theorem absent_of_free {key : Key} (probed : Probed path cell) {j : Nat} (free : cell (path key j) = .free)
    (missed : ∀ m < j, ∀ value, cell (path key m) ≠ .live key value) : Absent cell key := by
  intro i value live
  obtain ⟨k,rfl,passed⟩ := probed.reached i key value live
  rcases Nat.lt_trichotomy k j with early | rfl | late
  · exact missed k early value live
  · rw [free] at live
    cases live
  · exact passed j late free

theorem holds_unique {key : Key} {value value' : Value} (probed : Probed path cell) (one : Holds cell key value)
    (two : Holds cell key value') : value = value' := by
  obtain ⟨i,first⟩ := one
  obtain ⟨i',second⟩ := two
  obtain rfl := probed.unique i i' key value value' first second
  rw [first] at second
  cases second
  rfl

theorem reached_update {key : Key} {i i' : Nat} {c : Cell Key Value} (filled : c ≠ .free)
    (reached : Reached path cell key i) : Reached path (Function.update cell i' c) key i := by
  obtain ⟨j,comes,passed⟩ := reached
  refine ⟨j,comes,?_⟩
  intro m early
  by_cases same : path key m = i'
  · rw [same,update_self]
    exact filled
  · rw [update_of_ne same]
    exact passed m early

/-- Entering an absent key in a cell that it reaches. -/
theorem probed_enter {key : Key} {value : Value} {i : Nat} (probed : Probed path cell) (reached : Reached path cell key i)
    (absent : Absent cell key) : Probed path (Function.update cell i (.live key value)) := by
  refine ⟨?_,?_⟩
  · intro i' key' value' live
    by_cases same : i' = i
    · subst same
      rw [update_self] at live
      cases live
      exact reached_update (by simp) reached
    · rw [update_of_ne same] at live
      exact reached_update (by simp) (probed.reached i' key' value' live)
  · intro i1 i2 key' value1 value2 one two
    by_cases first : i1 = i
    · by_cases second : i2 = i
      · rw [first,second]
      · rw [first,update_self] at one
        rw [update_of_ne second] at two
        cases one
        exact absurd two (absent i2 value2)
    · by_cases second : i2 = i
      · rw [second,update_self] at two
        rw [update_of_ne first] at one
        cases two
        exact absurd one (absent i1 value1)
      · rw [update_of_ne first] at one
        rw [update_of_ne second] at two
        exact probed.unique i1 i2 key' value1 value2 one two

/-- Replacing the value of a live cell. -/
theorem probed_replace {key : Key} {value value' : Value} {i : Nat} (probed : Probed path cell)
    (live : cell i = .live key value) : Probed path (Function.update cell i (.live key value')) := by
  have old : ∀ i' key' v, Function.update cell i (.live key value') i' = .live key' v → ∃ v', cell i' = .live key' v' := by
    intro i' key' v new
    by_cases same : i' = i
    · subst same
      rw [update_self] at new
      cases new
      exact ⟨value,live⟩
    · rw [update_of_ne same] at new
      exact ⟨v,new⟩
  refine ⟨?_,?_⟩
  · intro i' key' v new
    obtain ⟨v',was⟩ := old i' key' v new
    exact reached_update (by simp) (probed.reached i' key' v' was)
  · intro i1 i2 key' v1 v2 one two
    obtain ⟨w1,was1⟩ := old i1 key' v1 one
    obtain ⟨w2,was2⟩ := old i2 key' v2 two
    exact probed.unique i1 i2 key' w1 w2 was1 was2

/-- Deleting any cell. -/
theorem probed_delete (probed : Probed path cell) (i : Nat) : Probed path (Function.update cell i .deleted) := by
  have old : ∀ i' key v, Function.update cell i .deleted i' = .live key v → cell i' = .live key v := by
    intro i' key v new
    by_cases same : i' = i
    · subst same
      rw [update_self] at new
      cases new
    · rwa [update_of_ne same] at new
  refine ⟨?_,?_⟩
  · intro i' key v new
    exact reached_update (by simp) (probed.reached i' key v (old i' key v new))
  · intro i1 i2 key v1 v2 one two
    exact probed.unique i1 i2 key v1 v2 (old i1 key v1 one) (old i2 key v2 two)

def Represents (cell : Nat → Cell Key Value) (map : Key → Option Value) : Prop :=
  ∀ key value, Holds cell key value ↔ map key = some value

variable {map : Key → Option Value} {i : Nat} {key : Key} {value : Value}

/-- Every probed table stands for a map. -/
theorem represents_some {path : Key → Nat → Nat} (probed : Probed path cell) : ∃ map, Represents cell map := by
  classical
  refine ⟨fun key => if holds : ∃ value, Holds cell key value then some holds.choose else none,fun key value => ?_⟩
  dsimp only
  by_cases holds : ∃ value, Holds cell key value
  · rw [dif_pos holds,some_inj]
    constructor
    · intro here
      exact holds_unique probed holds.choose_spec here
    · rintro rfl
      exact holds.choose_spec
  · rw [dif_neg holds]
    exact ⟨fun here => absurd ⟨value,here⟩ holds,nofun⟩

theorem represents_absent (represents : Represents cell map) : Absent cell key ↔ map key = none := by
  rw [eq_none_iff_forall_ne_some]
  constructor
  · intro absent value mapped
    obtain ⟨i,live⟩ := (represents key value).mpr mapped
    exact absent i value live
  · intro unmapped i value live
    exact unmapped value ((represents key value).mp ⟨i,live⟩)

theorem holds_update {c : Cell Key Value} {key' : Key} {value' : Value} :
    Holds (Function.update cell i c) key' value' ↔ c = .live key' value' ∨ ∃ j, j ≠ i ∧ cell j = .live key' value' := by
  constructor
  · rintro ⟨j,live⟩
    by_cases same : j = i
    · subst same
      rw [update_self] at live
      exact .inl live
    · rw [update_of_ne same] at live
      exact .inr ⟨j,same,live⟩
  · rintro (new | ⟨j,other,live⟩)
    · exact ⟨i,by rw [update_self,new]⟩
    · exact ⟨j,by rw [update_of_ne other,live]⟩

theorem holds_elsewhere (dead : ¬ (cell i).IsLive) {key' : Key} {value' : Value} :
    (∃ j, j ≠ i ∧ cell j = .live key' value') ↔ Holds cell key' value' := by
  constructor
  · rintro ⟨j,_,live⟩
    exact ⟨j,live⟩
  · rintro ⟨j,live⟩
    refine ⟨j,?_,live⟩
    rintro rfl
    rw [live] at dead
    exact dead trivial

theorem holds_others {v : Value} (probed : Probed path cell) (live : cell i = .live key v) {key' : Key} {value' : Value} :
    (∃ j, j ≠ i ∧ cell j = .live key' value') ↔ key' ≠ key ∧ Holds cell key' value' := by
  constructor
  · rintro ⟨j,other,there⟩
    refine ⟨?_,j,there⟩
    rintro rfl
    exact other (probed.unique j i key' value' v there live)
  · rintro ⟨other,j,there⟩
    refine ⟨j,?_,there⟩
    rintro rfl
    rw [live] at there
    cases there
    exact other rfl

variable [DecidableEq Key]

theorem represents_enter (represents : Represents cell map) (dead : ¬ (cell i).IsLive) (absent : Absent cell key) :
    Represents (Function.update cell i (.live key value)) (Function.update map key (some value)) := by
  intro key' value'
  rw [holds_update,holds_elsewhere dead,represents key' value']
  by_cases same : key' = key
  · subst same
    rw [update_self,(represents_absent represents).mp absent]
    simp
  · rw [update_of_ne same]
    simp [Ne.symm same]

theorem represents_replace {v : Value} (represents : Represents cell map) (probed : Probed path cell)
    (live : cell i = .live key v) :
    Represents (Function.update cell i (.live key value)) (Function.update map key (some value)) := by
  intro key' value'
  rw [holds_update,holds_others probed live,represents key' value']
  by_cases same : key' = key
  · subst same
    rw [update_self]
    simp
  · rw [update_of_ne same]
    simp [same,Ne.symm same]

theorem represents_delete {v : Value} (represents : Represents cell map) (probed : Probed path cell)
    (live : cell i = .live key v) : Represents (Function.update cell i .deleted) (Function.update map key none) := by
  intro key' value'
  rw [holds_update,holds_others probed live,represents key' value']
  by_cases same : key' = key
  · subst same
    rw [update_self]
    simp
  · rw [update_of_ne same]
    simp [same]

omit [DecidableEq Key] in
/-- Marking a cell as deleted that was not live changes nothing. -/
theorem represents_mark (represents : Represents cell map) (dead : ¬ (cell i).IsLive) :
    Represents (Function.update cell i .deleted) map := by
  intro key' value'
  rw [holds_update,holds_elsewhere dead,represents key' value']
  simp

def count (size : Nat) (cell : Nat → Cell Key Value) : Nat := ((Finset.Icc 1 size).filter fun i => (cell i).IsLive).card

omit [DecidableEq Key] in
theorem count_update {size : Nat} (cell : Nat → Cell Key Value) (c : Cell Key Value) (inside : 1 ≤ i ∧ i ≤ size) :
    count size (Function.update cell i c)+(if (cell i).IsLive then 1 else 0) =
      count size cell+(if c.IsLive then 1 else 0) := by
  have part (d : Nat → Cell Key Value) : count size d =
      (((Finset.Icc 1 size).erase i).filter fun j => (d j).IsLive).card+(if (d i).IsLive then 1 else 0) := by
    have whole : Finset.Icc 1 size = insert i ((Finset.Icc 1 size).erase i) :=
      (Finset.insert_erase (Finset.mem_Icc.mpr inside)).symm
    rw [count]
    nth_rewrite 1 [whole]
    rw [Finset.filter_insert]
    split_ifs with live
    · rw [Finset.card_insert_of_notMem (by simp)]
    · rfl
  have others : (((Finset.Icc 1 size).erase i).filter fun j => (Function.update cell i c j).IsLive) =
      (((Finset.Icc 1 size).erase i).filter fun j => (cell j).IsLive) := by
    refine Finset.filter_congr (fun j member => ?_)
    rw [update_of_ne (Finset.ne_of_mem_erase member)]
  rw [part (Function.update cell i c),part cell,others,update_self]
  omega

omit [DecidableEq Key] in
omit [DecidableEq Key] in
/-- A table is full when all its cells are live. -/
theorem count_eq_size {size : Nat} : count size cell = size ↔ ∀ i, 1 ≤ i → i ≤ size → (cell i).IsLive := by
  have total : (Finset.Icc 1 size).card = size := by rw [Nat.card_Icc]; omega
  constructor
  · intro full i low high
    have all := Finset.filter_card_eq (full.trans total.symm)
    exact all i (Finset.mem_Icc.mpr ⟨low,high⟩)
  · intro all
    rw [count,Finset.filter_true_of_mem,total]
    intro i member
    obtain ⟨low,high⟩ := Finset.mem_Icc.mp member
    exact all i low high

end

/-- One step back by the stride among the indices from one to the size. -/
def back (size stride idx : Nat) : Nat := if idx ≤ stride then size+idx-stride else idx-stride

def walk (size start stride : Nat) : Nat → Nat
  | 0 => start
  | j+1 => back size stride (walk size start stride j)

section
variable {size start stride : Nat} (inside : 1 ≤ start ∧ start ≤ size) (short : 1 ≤ stride ∧ stride < size)
include inside short

theorem walk_inside (j : Nat) : 1 ≤ walk size start stride j ∧ walk size start stride j ≤ size := by
  induction j with
  | zero => exact inside
  | succ j ih =>
    rw [walk,back]
    split_ifs <;> omega

theorem walk_modEq (j : Nat) : walk size start stride j+j*stride ≡ start [MOD size] := by
  induction j with
  | zero => simp [walk,Nat.ModEq]
  | succ j ih =>
    obtain ⟨low,high⟩ := walk_inside inside short j
    refine Nat.ModEq.trans ?_ ih
    rw [walk,back,Nat.succ_mul]
    split_ifs with wraps
    · have sum : size+walk size start stride j-stride+(j*stride+stride) = walk size start stride j+j*stride+size := by
        omega
      rw [sum]
      exact Nat.add_modEq_right
    · have sum : walk size start stride j-stride+(j*stride+stride) = walk size start stride j+j*stride := by omega
      rw [sum]

variable (coprime : Nat.Coprime stride size)
include coprime

/-- Within one round the walk comes to no index twice. -/
theorem walk_injective {j k : Nat} (ordered : j ≤ k) (round : k < j+size)
    (same : walk size start stride j = walk size start stride k) : j = k := by
  have sums : j*stride ≡ k*stride [MOD size] := by
    have both := (walk_modEq inside short j).trans (walk_modEq inside short k).symm
    rw [same] at both
    exact Nat.ModEq.add_left_cancel' _ both
  have indices := Nat.ModEq.cancel_right_of_coprime coprime.symm sums
  have divides := (Nat.modEq_iff_dvd' ordered).mp indices
  have := Nat.eq_zero_of_dvd_of_lt divides (by omega)
  omega

/-- A round comes to every index. -/
theorem walk_covers {i : Nat} (low : 1 ≤ i) (high : i ≤ size) : ∃ j < size, walk size start stride j = i := by
  have image : (Finset.range size).image (walk size start stride) = Finset.Icc 1 size := by
    apply Finset.eq_of_subset_of_card_le
    · intro x member
      obtain ⟨j,_,rfl⟩ := Finset.mem_image.mp member
      exact Finset.mem_Icc.mpr (walk_inside inside short j)
    · rw [Finset.card_image_of_injOn,Nat.card_Icc,Finset.card_range]
      · omega
      · intro j one k two same
        simp only [Finset.coe_range,Set.mem_Iio] at one two
        rcases le_total j k with ordered | ordered
        · exact walk_injective inside short coprime ordered (by omega) same
        · exact (walk_injective inside short coprime ordered (by omega) same.symm).symm
  have member : i ∈ (Finset.range size).image (walk size start stride) := by
    rw [image]
    exact Finset.mem_Icc.mpr ⟨low,high⟩
  obtain ⟨j,one,same⟩ := Finset.mem_image.mp member
  exact ⟨j,Finset.mem_range.mp one,same⟩

omit coprime in
/-- After a round the walk is back at its start. -/
theorem walk_returns : walk size start stride size = start := by
  obtain ⟨low,high⟩ := walk_inside inside short size
  have congruent := walk_modEq inside short size
  have ends : walk size start stride size ≡ start [MOD size] := by
    rw [Nat.ModEq,Nat.add_mul_mod_self_left] at congruent
    exact congruent
  rcases le_total (walk size start stride size) start with below | above
  · have := Nat.eq_zero_of_dvd_of_lt ((Nat.modEq_iff_dvd' below).mp ends) (by omega)
    omega
  · have := Nat.eq_zero_of_dvd_of_lt ((Nat.modEq_iff_dvd' above).mp ends.symm) (by omega)
    omega

end
end UBoot.OpenAddressing
