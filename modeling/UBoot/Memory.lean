import Mathlib.Tactic

/-!
Memory as a function from addresses to cells, with the block operations of the
C library: reading and writing a block, `memmove`, and the forward `memcpy`
loop, which is a `memmove` wherever the destination does not lie ahead inside
the source.
-/
namespace UBoot.Memory
open List
universe u

section
variable {Cell : Type u}

def load (m : Nat → Cell) (a len : Nat) : List Cell := (List.range len).map (fun i => m (a+i))

/-- The memory with the cells of `bs` written from address `a`. -/
def store (m : Nat → Cell) (a : Nat) (bs : List Cell) : Nat → Cell :=
  fun i => if a ≤ i then (bs[i-a]?).getD (m i) else m i

/-- `memmove(dst, src, len)`: the destination takes the old source. -/
def memmove (m : Nat → Cell) (dst src len : Nat) : Nat → Cell :=
  fun i => if dst ≤ i ∧ i < dst+len then m (src+(i-dst)) else m i

/-- `memcpy(dst, src, len)` as `lib/string.c` runs it: one cell after another,
    lowest address first. -/
def memcpy (m : Nat → Cell) (dst src : Nat) : Nat → Nat → Cell
  | 0 => m
  | len+1 => memcpy (store m dst [m src]) (dst+1) (src+1) len

@[simp] theorem load_length (m : Nat → Cell) (a len : Nat) : (load m a len).length = len := by
  simp [load]

theorem load_congr {m m' : Nat → Cell} {a a' len : Nat} (same : ∀ i, i < len → m (a+i) = m' (a'+i)) :
    load m a len = load m' a' len := by
  apply map_congr_left
  intro i member
  exact same i (mem_range.mp member)

theorem load_append (m : Nat → Cell) (a k l : Nat) : load m a (k+l) = load m a k ++ load m (a+k) l := by
  simp only [load,range_add,map_append,map_map]
  congr 1
  apply map_congr_left
  intro i _
  simp [add_assoc]

theorem load_succ (m : Nat → Cell) (a n : Nat) : load m a (n+1) = m a :: load m (a+1) n := by
  rw [add_comm n 1,load_append]
  rfl

theorem load_take (m : Nat → Cell) (a : Nat) {k n : Nat} (le : k ≤ n) : (load m a n).take k = load m a k := by
  obtain ⟨l,rfl⟩ := Nat.exists_eq_add_of_le le
  rw [load_append,take_left' (load_length m a k)]

theorem load_drop (m : Nat → Cell) (a k l : Nat) : (load m a (k+l)).drop k = load m (a+k) l := by
  rw [load_append,drop_left' (load_length m a k)]

theorem store_below (m : Nat → Cell) {a i : Nat} (bs : List Cell) (below : i < a) : store m a bs i = m i := by
  simp [store,not_le.mpr below]

theorem store_above (m : Nat → Cell) {a i : Nat} (bs : List Cell) (above : a+bs.length ≤ i) :
    store m a bs i = m i := by
  have outside : bs[i-a]? = none := getElem?_eq_none (by omega)
  simp [store,outside]

theorem store_inside (m : Nat → Cell) {a i : Nat} {bs : List Cell} {b : Cell} (at_i : bs[i]? = some b) :
    store m a bs (a+i) = b := by
  simp [store,at_i]

@[simp] theorem store_nil (m : Nat → Cell) (a : Nat) : store m a [] = m := by
  funext i
  simp [store]

/-- A block that is written and read back. -/
theorem load_store (m : Nat → Cell) (a : Nat) (bs : List Cell) : load (store m a bs) a bs.length = bs := by
  apply ext_getElem?
  intro i
  by_cases inside : i < bs.length
  · have found : bs[i]? = some bs[i] := getElem?_eq_getElem inside
    simp [load,inside,store_inside m found]
  · rw [getElem?_eq_none (by simpa using inside),getElem?_eq_none (by omega)]

/-- A block apart from the one that is written. -/
theorem load_store_apart (m : Nat → Cell) {a b len : Nat} {bs : List Cell}
    (apart : b+len ≤ a ∨ a+bs.length ≤ b) : load (store m a bs) b len = load m b len := by
  apply load_congr
  intro i inside
  rcases apart with low | high
  · exact store_below m bs (by omega)
  · exact store_above m bs (by omega)

/-- A block that is written in two parts. -/
theorem store_append (m : Nat → Cell) (a : Nat) (first second : List Cell) :
    store m a (first ++ second) = store (store m a first) (a+first.length) second := by
  funext i
  by_cases low : i < a+first.length
  · rw [store_below _ _ low]
    by_cases before : i < a
    · rw [store_below _ _ before,store_below _ _ before]
    · have inside : i-a < first.length := by omega
      simp only [store,getElem?_append_left inside]
  · have past : first[i-a]? = none := getElem?_eq_none (by omega)
    have shift : i-(a+first.length) = i-a-first.length := by omega
    have reach : a+first.length ≤ i := by omega
    have start : a ≤ i := by omega
    simp only [store,reach,start,if_true,past,Option.getD_none,shift,
      getElem?_append_right (show first.length ≤ i-a by omega)]

/-- A block that is written back as it was read. -/
theorem store_load (m : Nat → Cell) (a n : Nat) : store m a (load m a n) = m := by
  funext i
  by_cases below : i < a
  · exact store_below m _ below
  · by_cases above : a+n ≤ i
    · exact store_above m _ (by rwa [load_length])
    · have found : (load m a n)[i-a]? = some (m i) := by
        have place : a+(i-a) = i := by omega
        simp [load,getElem?_map,getElem?_range (show i-a < n by omega),place]
      simp [store,show a ≤ i by omega,found]

/-- The forward copy is a move unless the destination starts inside the source
    behind its first cell. -/
theorem memcpy_eq_memmove (m : Nat → Cell) {dst src len : Nat} (safe : dst ≤ src ∨ src+len ≤ dst) :
    memcpy m dst src len = memmove m dst src len := by
  induction len generalizing m dst src with
  | zero =>
    funext i
    have outside : ¬ (dst ≤ i ∧ i < dst+0) := by omega
    simp only [memcpy,memmove,outside,if_false]
  | succ len ih =>
    rw [memcpy,ih _ (by omega)]
    funext i
    unfold memmove
    by_cases first : i = dst
    · subst first
      have not_later : ¬ (i+1 ≤ i ∧ i < i+1+len) := by omega
      have now : i ≤ i ∧ i < i+(len+1) := by omega
      rw [if_neg not_later,if_pos now]
      simp [store]
    have same : (dst+1 ≤ i ∧ i < dst+1+len) ↔ (dst ≤ i ∧ i < dst+(len+1)) := by omega
    by_cases inside : dst ≤ i ∧ i < dst+(len+1)
    · -- The cell read here was not the one written first.
      have source : src+1+(i-(dst+1)) = src+(i-dst) := by omega
      have kept : store m dst [m src] (src+(i-dst)) = m (src+(i-dst)) := by
        rcases safe with low | high
        · exact store_above m _ (by simp; omega)
        · exact store_below m _ (by omega)
      rw [if_pos (same.mpr inside),if_pos inside,source,kept]
    · rw [if_neg (fun later => inside (same.mp later)),if_neg inside]
      by_cases low : i < dst
      · exact store_below m _ low
      · exact store_above m _ (by simp; omega)

end
end UBoot.Memory
