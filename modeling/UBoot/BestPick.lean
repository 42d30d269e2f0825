import Mathlib.Data.List.Basic

/-!
A scan over a list that keeps the best item so far: an item replaces it at a smaller
position, or at the same position if it is the preferred item.

The item kept is the preferred one if that is at the smallest position, and the first one
there otherwise (`scan_picks`); there is one such item at most (`Picks.unique`).
-/
namespace UBoot.BestPick
open List

variable {α : Type*}

/-- What is kept when the next item is at some position, or at none. -/
def better (position : α → Option ℕ) (preferred : α → Bool) (best : Option (α × ℕ)) (item : α) : Option (α × ℕ) :=
  match position item, best with
  | none, _ => best
  | some i, none => some (item,i)
  | some i, some (_,pos) => if i < pos ∨ i = pos ∧ preferred item then some (item,i) else best

structure Picks (position : α → Option ℕ) (preferred : α → Bool) (items : List α) (item : α) (pos : ℕ) : Prop where
  member : item ∈ items
  here : position item = some pos
  smallest : ∀ other ∈ items, ∀ i, position other = some i → pos ≤ i
  first : preferred item = false → (∀ other ∈ items, position other = some pos → preferred other = false) ∧
    ∃ front back, items = front ++ item :: back ∧ ∀ other ∈ front, position other ≠ some pos

/-- What the scan keeps is what is to be picked from the items seen. -/
def Kept (position : α → Option ℕ) (preferred : α → Bool) (items : List α) : Option (α × ℕ) → Prop
  | none => ∀ item ∈ items, position item = none
  | some (item,pos) => Picks position preferred items item pos

variable {position : α → Option ℕ} {preferred : α → Bool} {items : List α} {item : α} {pos : ℕ}

theorem Picks.append_later (picks : Picks position preferred items item pos) {next : α}
    (later : ∀ i, position next = some i → pos ≤ i) (plain : position next = some pos → preferred next = false) :
    Picks position preferred (items ++ [next]) item pos where
  member := mem_append_left _ picks.member
  here := picks.here
  smallest := by
    intro other member i at_i
    rcases mem_append.1 member with seen | new
    · exact picks.smallest other seen i at_i
    · rw [mem_singleton.1 new] at at_i
      exact later i at_i
  first := by
    intro unpreferred
    obtain ⟨others,front,back,split,before⟩ := picks.first unpreferred
    refine ⟨?_,front,back ++ [next],by simp [split],before⟩
    intro other member at_pos
    rcases mem_append.1 member with seen | new
    · exact others other seen at_pos
    · rw [mem_singleton.1 new] at at_pos ⊢
      exact plain at_pos

theorem picks_smaller (here : position item = some pos)
    (smaller : ∀ other ∈ items, ∀ i, position other = some i → pos < i) :
    Picks position preferred (items ++ [item]) item pos where
  member := by simp
  here := here
  smallest := by
    intro other member i at_i
    rcases mem_append.1 member with seen | new
    · exact Nat.le_of_lt (smaller other seen i at_i)
    · rw [mem_singleton.1 new,here] at at_i
      exact Nat.le_of_eq (Option.some.inj at_i)
  first := by
    intro unpreferred
    refine ⟨?_,items,[],rfl,fun other seen at_pos => Nat.lt_irrefl _ (smaller other seen pos at_pos)⟩
    intro other member at_pos
    rcases mem_append.1 member with seen | new
    · exact absurd (smaller other seen pos at_pos) (Nat.lt_irrefl _)
    · rw [mem_singleton.1 new]
      exact unpreferred

theorem picks_preferred (here : position item = some pos) (chosen : preferred item = true) (member : item ∈ items)
    (smallest : ∀ other ∈ items, ∀ i, position other = some i → pos ≤ i) :
    Picks position preferred items item pos where
  member := member
  here := here
  smallest := smallest
  first := by
    intro unpreferred
    rw [chosen] at unpreferred
    exact absurd unpreferred (by simp)

/-- What is picked only depends on which items are at the smallest position. -/
theorem Picks.transfer {position' : α → Option ℕ} {pos' : ℕ} (picks : Picks position preferred items item pos)
    (same : ∀ other ∈ items, position' other = some pos' ↔ position other = some pos)
    (smallest : ∀ other ∈ items, ∀ i, position' other = some i → pos' ≤ i) :
    Picks position' preferred items item pos' where
  member := picks.member
  here := (same item picks.member).2 picks.here
  smallest := smallest
  first := by
    intro unpreferred
    obtain ⟨others,front,back,split,before⟩ := picks.first unpreferred
    refine ⟨fun other member at_pos => others other member ((same other member).1 at_pos),front,back,split,?_⟩
    intro other member at_pos
    exact before other member ((same other (by simp [split,member])).1 at_pos)

theorem better_kept {best : Option (α × ℕ)} (kept : Kept position preferred items best) (next : α) :
    Kept position preferred (items ++ [next]) (better position preferred best next) := by
  unfold better
  cases at_i : position next with
  | none =>
    cases best with
    | none =>
      intro other member
      rcases mem_append.1 member with seen | new
      · exact kept other seen
      · rw [mem_singleton.1 new]
        exact at_i
    | some found =>
      exact Picks.append_later kept (fun i at_j => by simp [at_i] at at_j) (fun at_j => by simp [at_i] at at_j)
  | some i =>
    cases best with
    | none =>
      refine picks_smaller at_i fun other seen j at_j => ?_
      rw [kept other seen] at at_j
      exact absurd at_j (by simp)
    | some found =>
      obtain ⟨item,pos⟩ := found
      have picks : Picks position preferred items item pos := kept
      by_cases less : i < pos
      · simp only [less,true_or,if_true]
        exact picks_smaller at_i fun other seen j at_j => Nat.lt_of_lt_of_le less (picks.smallest other seen j at_j)
      by_cases tie : i = pos ∧ preferred next = true
      · simp only [tie,and_self,or_true,if_true]
        refine picks_preferred (by rw [at_i,tie.1]) tie.2 (by simp) fun other member j at_j => ?_
        rcases mem_append.1 member with seen | new
        · exact picks.smallest other seen j at_j
        · rw [mem_singleton.1 new,at_i] at at_j
          have := Option.some.inj at_j
          omega
      · simp only [less,tie,or_self,if_false]
        refine picks.append_later (fun j at_j => ?_) (fun at_pos => ?_)
        · rw [at_i] at at_j
          have := Option.some.inj at_j
          omega
        · rw [at_i] at at_pos
          exact Bool.eq_false_iff.2 fun chosen => tie ⟨Option.some.inj at_pos,chosen⟩

theorem scan_kept (more : List α) {best : Option (α × ℕ)} (kept : Kept position preferred items best) :
    Kept position preferred (items ++ more) (more.foldl (better position preferred) best) := by
  induction more generalizing items best with
  | nil => simpa using kept
  | cons next more ih =>
    have := ih (better_kept kept next)
    simpa using this

/-- The scan of a whole list keeps what is to be picked from it. -/
theorem scan_picks (items : List α) : Kept position preferred items (items.foldl (better position preferred) none) := by
  have start : Kept position preferred [] none := fun item member => absurd member (by simp)
  simpa using scan_kept items start

/-- At most one item is to be picked, where one item is preferred at most. -/
theorem Picks.unique {other : α} {i : ℕ} (one : ∀ a ∈ items, ∀ b ∈ items, preferred a → preferred b → a = b)
    (left : Picks position preferred items item pos) (right : Picks position preferred items other i) :
    item = other ∧ pos = i := by
  have same : pos = i := Nat.le_antisymm (left.smallest other right.member i right.here)
    (right.smallest item left.member pos left.here)
  subst same
  refine ⟨?_,rfl⟩
  cases left_preferred : preferred item with
  | true =>
    cases right_preferred : preferred other with
    | true => exact one item left.member other right.member left_preferred right_preferred
    | false =>
      have := (right.first right_preferred).1 item left.member left.here
      simp [this] at left_preferred
  | false =>
    obtain ⟨others,front,back,split,before⟩ := left.first left_preferred
    obtain ⟨-,front',back',split',before'⟩ := right.first (others other right.member right.here)
    -- neither item stands in front of the other one
    rw [split] at split'
    rcases append_eq_append_iff.1 split' with ⟨mid,front_is,back_is⟩ | ⟨mid,front_is,back_is⟩
    · cases mid with
      | nil => simpa using (List.cons.inj back_is).1
      | cons head mid =>
        have head_is : item = head := (List.cons.inj back_is).1
        exact absurd left.here (before' item (by simp [front_is,head_is]))
    · cases mid with
      | nil => simpa using (List.cons.inj back_is).1.symm
      | cons head mid =>
        have head_is : other = head := (List.cons.inj back_is).1
        exact absurd right.here (before other (by simp [front_is,head_is]))

end UBoot.BestPick
