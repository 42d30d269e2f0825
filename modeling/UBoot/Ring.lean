import UBoot.Memory

/-!
Rings of `n` cells: positions count on from the last cell to the first. A
window is what a ring holds over a stretch of positions, in order; the lemmas
below cut windows, carry them to a memory that agrees on them, and read a
window that does not pass the end as a block of memory.
-/
namespace UBoot.Ring
open UBoot.Memory List
universe u

section
variable {Cell : Type u}

/-- The cell of a position that passes the end at most once. -/
def slot (n i : Nat) : Nat := if i < n then i else i-n

def window (m : Nat → Cell) (n p len : Nat) : List Cell := (List.range len).map (fun i => m (slot n (p+i)))

theorem slot_lt {n i : Nat} (once : i < n+n) : slot n i < n := by
  unfold slot; split <;> omega

@[simp] theorem window_length (m : Nat → Cell) (n p len : Nat) : (window m n p len).length = len := by
  simp [window]

theorem window_congr {m m' : Nat → Cell} {n n' p p' len : Nat}
    (same : ∀ i, i < len → m (slot n (p+i)) = m' (slot n' (p'+i))) : window m n p len = window m' n' p' len := by
  apply map_congr_left
  intro i member
  exact same i (mem_range.mp member)

theorem window_append (m : Nat → Cell) {n p k l : Nat} (inside : p < n) (short : k+l ≤ n) :
    window m n p (k+l) = window m n p k ++ window m n (slot n (p+k)) l := by
  simp only [window,range_add,map_append,map_map]
  congr 1
  apply map_congr_left
  intro i member
  have bound := mem_range.mp member
  have same : slot n (p+(k+i)) = slot n (slot n (p+k)+i) := by
    unfold slot; split <;> split <;> split <;> omega
  simp only [Function.comp,same]

theorem window_take (m : Nat → Cell) {n p k len : Nat} (inside : p < n) (full : len ≤ n) (le : k ≤ len) :
    (window m n p len).take k = window m n p k := by
  obtain ⟨l,rfl⟩ := Nat.exists_eq_add_of_le le
  rw [window_append m inside full]
  simp

theorem window_drop (m : Nat → Cell) {n p k len : Nat} (inside : p < n) (full : len ≤ n) (le : k ≤ len) :
    (window m n p len).drop k = window m n (slot n (p+k)) (len-k) := by
  obtain ⟨l,rfl⟩ := Nat.exists_eq_add_of_le le
  rw [window_append m inside full]
  simp

/-- A window that stays before the end is a block. -/
theorem window_block (m : Nat → Cell) {n p len : Nat} (before : p+len ≤ n) : window m n p len = load m p len := by
  apply map_congr_left
  intro i member
  have bound := mem_range.mp member
  have same : slot n (p+i) = p+i := by unfold slot; split <;> omega
  rw [same]

end
end UBoot.Ring
