import Mathlib.Tactic
import Mathlib.Data.List.TakeWhile

/-!
Lists whose elements have keys, read as maps from keys to elements: where an
element with a key stands (`place`), which one it is (`lookup`), and what
appending an element and taking one out do to the map. The keys of a list are
distinct where it matters.
-/
namespace UBoot.KeyedLists
open List Option
universe u v
variable {α : Type u} {κ : Type v} (key : α → κ)

def Distinct (l : List α) : Prop := (l.map key).Nodup

variable {key} {l : List α}

theorem distinct_cons {a : α} : Distinct key (a :: l) ↔ (∀ b ∈ l, key b ≠ key a) ∧ Distinct key l := by
  simp [Distinct]

theorem distinct_append_one {a : α} : Distinct key (l ++ [a]) ↔ Distinct key l ∧ ∀ b ∈ l, key b ≠ key a := by
  rw [Distinct,Distinct,map_append,map_singleton,nodup_append_comm,singleton_append,nodup_cons]
  simp only [List.mem_map,not_exists,not_and]
  exact And.comm

theorem Distinct.sublist {l' : List α} (distinct : Distinct key l) (part : l'.Sublist l) : Distinct key l' :=
  List.Nodup.sublist (part.map key) distinct

theorem Distinct.eraseIdx (distinct : Distinct key l) (i : Nat) : Distinct key (l.eraseIdx i) :=
  distinct.sublist (eraseIdx_sublist l i)

/-- Elements of one key are the same element, at the same place. -/
theorem Distinct.same (distinct : Distinct key l) {i j : Nat} {a b : α} (first : l[i]? = some a) (second : l[j]? = some b)
    (keys : key a = key b) : i = j := by
  have inside : i < (l.map key).length := by
    rw [length_map]
    exact (List.getElem?_eq_some_iff.mp first).1
  refine (getElem?_inj inside distinct).mp ?_
  rw [getElem?_map,getElem?_map,first,second,map_some,map_some,keys]

variable [DecidableEq κ] (key)

def lookup (l : List α) (k : κ) : Option α := l.find? fun a => key a = k
def place (l : List α) (k : κ) : Option Nat := l.findIdx? fun a => key a = k

variable {key} {k : κ}

theorem lookup_eq_none : lookup key l k = none ↔ ∀ a ∈ l, key a ≠ k := by
  simp [lookup]

theorem lookup_some {a : α} (found : lookup key l k = some a) : a ∈ l ∧ key a = k :=
  ⟨mem_of_find?_eq_some found,by simpa using find?_some found⟩

theorem lookup_eq_some (distinct : Distinct key l) {a : α} : lookup key l k = some a ↔ a ∈ l ∧ key a = k := by
  constructor
  · exact lookup_some
  · rintro ⟨member,rfl⟩
    cases found : lookup key l (key a) with
    | none => exact absurd rfl (lookup_eq_none.mp found a member)
    | some b =>
      obtain ⟨other,keys⟩ := lookup_some found
      obtain ⟨i,at_a⟩ := getElem?_of_mem member
      obtain ⟨j,at_b⟩ := getElem?_of_mem other
      have same := distinct.same at_b at_a keys
      rw [same,at_a] at at_b
      exact at_b.symm

theorem place_eq_none : place key l k = none ↔ lookup key l k = none := by
  rw [lookup_eq_none,place,findIdx?_eq_none_iff]
  simp

theorem place_some {i : Nat} (found : place key l k = some i) : ∃ a, l[i]? = some a ∧ key a = k := by
  obtain ⟨inside,holds,_⟩ := findIdx?_eq_some_iff_getElem.mp found
  exact ⟨l[i],getElem?_eq_getElem inside,by simpa using holds⟩

theorem place_eq_some (distinct : Distinct key l) {i : Nat} : place key l k = some i ↔ ∃ a, l[i]? = some a ∧ key a = k := by
  constructor
  · exact place_some
  · rintro ⟨a,at_a,rfl⟩
    cases found : place key l (key a) with
    | none =>
      have missing := lookup_eq_none.mp (place_eq_none.mp found)
      exact absurd rfl (missing a (mem_of_getElem? at_a))
    | some j =>
      obtain ⟨b,at_b,keys⟩ := place_some found
      rw [distinct.same at_b at_a keys]

theorem place_lookup (distinct : Distinct key l) (k : κ) : (place key l k).bind (l[·]?) = lookup key l k := by
  cases found : place key l k with
  | none =>
    rw [place_eq_none.mp found]
    rfl
  | some i =>
    obtain ⟨a,at_a,keys⟩ := place_some found
    rw [(lookup_eq_some distinct).mpr ⟨mem_of_getElem? at_a,keys⟩]
    exact at_a

theorem lookup_append (l l' : List α) (k : κ) : lookup key (l ++ l') k = (lookup key l k).or (lookup key l' k) :=
  find?_append

theorem lookup_one (a : α) (k : κ) : lookup key [a] k = if key a = k then some a else none := by
  by_cases same : key a = k <;> simp [lookup,same]

/-- An element with a new key comes into the map. -/
theorem lookup_append_one {a : α} (fresh : ∀ b ∈ l, key b ≠ key a) (k : κ) :
    lookup key (l ++ [a]) k = if key a = k then some a else lookup key l k := by
  rw [lookup_append,lookup_one]
  by_cases same : key a = k
  · rw [if_pos same,← same,lookup_eq_none.mpr fresh,if_pos rfl]
    rfl
  · rw [if_neg same,if_neg same,or_none]

/-- What is taken out leaves the map, and nothing else does. -/
theorem lookup_eraseIdx (distinct : Distinct key l) {i : Nat} {a : α} (at_a : l[i]? = some a) (k : κ) :
    lookup key (l.eraseIdx i) k = if key a = k then none else lookup key l k := by
  have erased := distinct.eraseIdx i
  by_cases same : key a = k
  · rw [if_pos same,lookup_eq_none]
    intro b member keys
    obtain ⟨j,apart,at_b⟩ := mem_eraseIdx_iff_getElem?.mp member
    exact apart (distinct.same at_b at_a (keys.trans same.symm))
  rw [if_neg same]
  apply Option.ext
  intro b
  rw [lookup_eq_some erased,lookup_eq_some distinct]
  refine and_congr_left fun keys => ?_
  constructor
  · exact fun member => (eraseIdx_sublist l i).mem member
  · intro member
    obtain ⟨j,at_b⟩ := getElem?_of_mem member
    refine mem_eraseIdx_iff_getElem?.mpr ⟨j,?_,at_b⟩
    rintro rfl
    rw [at_a] at at_b
    cases at_b
    exact same keys

theorem mem_eraseIdx_key (distinct : Distinct key l) {i : Nat} {a : α} (at_a : l[i]? = some a) :
    ∀ b ∈ l.eraseIdx i, key b ≠ key a := by
  have gone := lookup_eraseIdx distinct at_a (key a)
  rw [if_pos rfl] at gone
  exact lookup_eq_none.mp gone

end UBoot.KeyedLists
