import UBoot.Memory

/-!
The file allocation table of `fs/fat/fat.c` and `fs/fat/fat_write.c`. The table is the one that
`get_fatent` and `set_fatent_value` see through their window of six blocks: an entry is read as it
was last set. The search for a free cluster has no bound of its own. It ends at the first number
that no cluster can have, because such an entry reads as zero.
-/
namespace UBoot.Fat
open List Function

/-! ## Entries -/

inductive FatSize where
  | fat12
  | fat16
  | fat32
deriving DecidableEq

def FatSize.bits : FatSize → ℕ
  | .fat12 => 12
  | .fat16 => 16
  | .fat32 => 32

def FatSize.last : FatSize → ℕ
  | .fat12 => 0xff8
  | .fat16 => 0xfff8
  | .fat32 => 0xffffff8

def FatSize.bad : FatSize → ℕ
  | .fat12 => 0xff0
  | .fat16 => 0xfff0
  | .fat32 => 0xffffff0

def FatSize.mark : FatSize → ℕ
  | .fat12 => 0xfff
  | .fat16 => 0xffff
  | .fat32 => 0xfffffff

def IS_LAST_CLUST (x : ℕ) (fatsize : FatSize) : Prop := x ≥ fatsize.last

instance (x : ℕ) (fatsize : FatSize) : Decidable (IS_LAST_CLUST x fatsize) := inferInstanceAs (Decidable (_ ≥ _))

def CHECK_CLUST (x : ℕ) (fatsize : FatSize) : Prop := x ≤ 1 ∨ x ≥ fatsize.bad

instance (x : ℕ) (fatsize : FatSize) : Decidable (CHECK_CLUST x fatsize) := inferInstanceAs (Decidable (_ ∨ _))

abbrev Table := ℕ → ℕ

section
variable (fatsize : FatSize)

def get_fatent (fat : Table) (entry : ℕ) : ℕ := if CHECK_CLUST entry fatsize then 0 else fat entry

def set_fatent_value (fat : Table) (entry entry_value : ℕ) : Table :=
  Function.update fat entry (entry_value%2^fatsize.bits)

/-- The first free entry from `entry` on, for so many rounds. -/
def free_from (fat : Table) : ℕ → ℕ → ℕ
  | 0, entry => entry
  | rounds+1, entry => if get_fatent fatsize fat entry = 0 then entry else free_from fat rounds (entry+1)

/-- The loop of `find_empty_cluster` and `determine_fatent`: it is over at `bad` at the latest. -/
def next_free (fat : Table) (entry : ℕ) : ℕ := free_from fatsize fat (fatsize.bad-entry) entry

def find_empty_cluster (fat : Table) : ℕ := next_free fatsize fat 3

/-- The next free cluster behind `entry`, which is linked to it. -/
def determine_fatent (fat : Table) (entry : ℕ) : ℕ × Table :=
  (next_free fatsize fat (entry+1),set_fatent_value fatsize fat entry (next_free fatsize fat (entry+1)))

/-- The loop of `clear_fatent`, for so many rounds. -/
def clear_from : ℕ → Table → ℕ → Table
  | 0, fat, _ => fat
  | rounds+1, fat, entry =>
    if CHECK_CLUST entry fatsize then fat
    else
      let fat_val := get_fatent fatsize fat entry
      if fat_val ≠ 0 then clear_from rounds (set_fatent_value fatsize fat entry 0) fat_val else fat

/-- Every round of the loop clears an entry, so there are no more of them than entries. -/
def clear_fatent (fat : Table) (entry : ℕ) : Table := clear_from fatsize fatsize.bad fat entry

/-! ## Chains -/

/-- The clusters are linked in this order and the last one has an end mark. -/
def Linked (fat : Table) : List ℕ → Prop
  | [] => True
  | [c] => IS_LAST_CLUST (fat c) fatsize
  | c :: d :: chain => fat c = d ∧ Linked fat (d :: chain)

def Number (c : ℕ) : Prop := 2 ≤ c ∧ c < fatsize.bad

variable {fatsize} {fat : Table}

theorem bad_lt_last : fatsize.bad < fatsize.last := by cases fatsize <;> decide

theorem last_le_mark : fatsize.last ≤ fatsize.mark := by cases fatsize <;> decide

theorem mark_lt : fatsize.mark < 2^fatsize.bits := by cases fatsize <;> decide

variable {back chain front : List ℕ} {c high low : ℕ} {fat' : Table}

theorem Number.valid (number : Number fatsize c) : ¬CHECK_CLUST c fatsize := by
  obtain ⟨low,high⟩ := number
  unfold CHECK_CLUST
  omega

theorem Number.not_last (number : Number fatsize c) : ¬IS_LAST_CLUST c fatsize := by
  have below := @bad_lt_last fatsize
  have high := number.2
  unfold IS_LAST_CLUST
  omega

theorem get_number (number : Number fatsize c) : get_fatent fatsize fat c = fat c := by
  rw [get_fatent,if_neg number.valid]

/-- A value that fits into an entry is set as it is. -/
theorem set_value {c value : ℕ} (fits : value ≤ fatsize.mark) : set_fatent_value fatsize fat c value = update fat c value := by
  rw [set_fatent_value,Nat.mod_eq_of_lt (lt_of_le_of_lt fits mark_lt)]

theorem Number.le_mark (number : Number fatsize c) : c ≤ fatsize.mark := by
  have below := @bad_lt_last fatsize
  have above := @last_le_mark fatsize
  have high := number.2
  omega

/-- Tables that agree on the clusters of a chain link it in the same way. -/
theorem linked_congr (same : ∀ c ∈ chain, fat' c = fat c) (linked : Linked fatsize fat chain) :
    Linked fatsize fat' chain := by
  induction chain with
  | nil => trivial
  | cons c chain ih =>
    cases chain with
    | nil =>
      have here := same c mem_cons_self
      unfold Linked at linked ⊢
      rwa [here]
    | cons d chain =>
      obtain ⟨next,later⟩ := linked
      refine ⟨(same c mem_cons_self).trans next,ih (fun x member => same x (mem_cons_of_mem _ member)) later⟩

theorem linked_tail (linked : Linked fatsize fat (c :: chain)) : Linked fatsize fat chain := by
  cases chain with
  | nil => trivial
  | cons d chain => exact linked.2

theorem linked_drop (linked : Linked fatsize fat (front ++ back)) : Linked fatsize fat back := by
  induction front with
  | nil => exact linked
  | cons c front ih => exact ih (linked_tail linked)

/-- The entry of the last cluster before a rest that is not empty is the first of the rest. -/
theorem linked_next {c d : ℕ} (linked : Linked fatsize fat (front ++ c :: d :: back)) :
    fat c = d := (linked_drop linked).1

/-- No cluster of a chain is free. -/
theorem linked_used (linked : Linked fatsize fat chain) (numbers : ∀ c ∈ chain, Number fatsize c) :
    ∀ c ∈ chain, fat c ≠ 0 := by
  induction chain with
  | nil => simp
  | cons c chain ih =>
    intro x member
    rcases mem_cons.mp member with rfl | later
    · cases chain with
      | nil =>
        unfold Linked IS_LAST_CLUST at linked
        have positive : 0 < fatsize.last := by cases fatsize <;> decide
        omega
      | cons d chain =>
        have low := (numbers d (by simp)).1
        rw [linked.1]
        omega
    · exact ih (linked_tail linked) (fun y inside => numbers y (mem_cons_of_mem _ inside)) x later

/-- The front of a chain is a chain once its last cluster has an end mark. -/
theorem linked_cut {value : ℕ} (linked : Linked fatsize fat (front ++ c :: back))
    (fresh : c ∉ front) (last : IS_LAST_CLUST value fatsize) : Linked fatsize (update fat c value) (front ++ [c]) := by
  induction front with
  | nil => simpa [Linked] using last
  | cons x front ih =>
    have other : x ≠ c := fun same => fresh (same ▸ mem_cons_self)
    have later := ih (linked_tail linked) (fun member => fresh (mem_cons_of_mem _ member))
    cases front with
    | nil | cons y front =>
      refine ⟨?_,later⟩
      rw [update_of_ne other]
      exact linked.1

/-- A chain goes on behind its last cluster. -/
theorem linked_extend {c d : ℕ} (linked : Linked fatsize fat (front ++ [c]))
    (same : ∀ x ∈ front, fat' x = fat x) (link : fat' c = d) (behind : Linked fatsize fat' (d :: back)) :
    Linked fatsize fat' (front ++ c :: d :: back) := by
  induction front with
  | nil => exact ⟨link,behind⟩
  | cons x front ih =>
    have here := same x mem_cons_self
    have later := ih (linked_tail linked) (fun y member => same y (mem_cons_of_mem _ member))
    cases front with
    | nil | cons y front => exact ⟨here.trans linked.1,later⟩

/-- Consecutive clusters, each linked to the next one. -/
theorem linked_range (k : ℕ) (links : ∀ c, low ≤ c → c < low+k → fat c = c+1) (last : IS_LAST_CLUST (fat (low+k)) fatsize) :
    Linked fatsize fat (range' low (k+1)) := by
  induction k generalizing low with
  | zero => exact last
  | succ k ih =>
    have later := @ih (low+1) (fun c least below => links c (by omega) (by omega)) (by
      rw [add_assoc,add_comm 1 k]
      exact last)
    rw [range'_succ] at later ⊢
    exact ⟨links low le_rfl (by omega),later⟩

/-- A chain has no more clusters than there are numbers. -/
theorem chain_short (once : chain.Nodup) (numbers : ∀ c ∈ chain, Number fatsize c) : chain.length ≤ fatsize.bad := by
  have inside : chain ⊆ List.range fatsize.bad := fun c member => mem_range.mpr (numbers c member).2
  have few := (once.subperm inside).length_le
  rwa [length_range] at few

/-- The release of a chain frees its clusters and no others. -/
theorem clear_chain (linked : Linked fatsize fat chain) (once : chain.Nodup)
    (numbers : ∀ c ∈ chain, Number fatsize c) {rounds : ℕ} (enough : chain.length ≤ rounds) (entry : ℕ)
    (start : chain.head? = some entry ∨ chain = [] ∧ CHECK_CLUST entry fatsize) :
    clear_from fatsize rounds fat entry = fun c => if c ∈ chain then 0 else fat c := by
  induction chain generalizing fat rounds entry with
  | nil =>
    have ends : CHECK_CLUST entry fatsize := by simpa using start
    cases rounds with
    | zero => simp [clear_from]
    | succ rounds => simp [clear_from,ends]
  | cons c chain ih =>
    obtain rfl : c = entry := by simpa using start
    obtain ⟨rounds,rfl⟩ : ∃ more, rounds = more+1 := ⟨rounds-1,by simp at enough; omega⟩
    obtain ⟨fresh,later⟩ := nodup_cons.mp once
    have number := numbers c mem_cons_self
    have used := linked_used linked numbers c mem_cons_self
    have cleared : set_fatent_value fatsize fat c 0 = update fat c 0 := set_value (Nat.zero_le _)
    have rest : Linked fatsize (update fat c 0) chain := by
      refine linked_congr (fun x member => ?_) (linked_tail linked)
      have other : x ≠ c := fun same => fresh (same ▸ member)
      exact update_of_ne other _ _
    have next : chain.head? = some (fat c) ∨ chain = [] ∧ CHECK_CLUST (fat c) fatsize := by
      cases chain with
      | nil =>
        right
        have below := @bad_lt_last fatsize
        unfold Linked IS_LAST_CLUST at linked
        exact ⟨rfl,.inr (by omega)⟩
      | cons d chain => exact .inl (by rw [linked.1]; rfl)
    rw [clear_from,if_neg number.valid]
    simp only [get_number number,ne_eq,used,not_false_eq_true,if_true,cleared]
    rw [ih rest later (fun x member => numbers x (mem_cons_of_mem _ member)) (by simp at enough; omega) (fat c) next]
    funext x
    by_cases here : x = c
    · subst here
      simp
    · simp [here]

/-! ## Free clusters -/

/-- The free clusters from `low` on, below `high`. -/
def free_clusters (fat : Table) (low high : ℕ) : List ℕ := (List.range' low (high-low)).filter (fat · = 0)

theorem mem_free : c ∈ free_clusters fat low high ↔ low ≤ c ∧ c < high ∧ fat c = 0 := by
  rw [free_clusters,mem_filter,mem_range'_1]
  constructor
  · rintro ⟨⟨first,second⟩,zero⟩
    exact ⟨first,by omega,by simpa using zero⟩
  · rintro ⟨first,second,zero⟩
    exact ⟨⟨first,by omega⟩,by simpa using zero⟩

theorem free_nodup (low high : ℕ) : (free_clusters fat low high).Nodup := List.Nodup.filter _ nodup_range'

/-- Entries below `low` do not matter. -/
theorem free_congr (same : ∀ c, low ≤ c → fat' c = fat c) :
    free_clusters fat' low high = free_clusters fat low high := by
  apply filter_congr
  intro c member
  rw [same c (mem_range'_1.mp member).1]

theorem free_step (room : low < high) : free_clusters fat low high =
    if fat low = 0 then low :: free_clusters fat (low+1) high else free_clusters fat (low+1) high := by
  have count : high-low = (high-(low+1))+1 := by omega
  rw [free_clusters,count,range'_succ,filter_cons]
  simp only [decide_eq_true_eq]
  rfl

theorem free_cons {rest : List ℕ} (free : free_clusters fat low high = c :: rest) (numbers : 2 ≤ low)
    (bound : high ≤ fatsize.bad) {rounds : ℕ} (enough : fatsize.bad-low ≤ rounds) :
    free_from fatsize fat rounds low = c ∧ free_clusters fat (c+1) high = rest := by
  have room : low < high := by
    have member : c ∈ free_clusters fat low high := by rw [free]; exact mem_cons_self
    have := mem_free.mp member
    omega
  induction distance : high-low generalizing low rounds with
  | zero => omega
  | succ distance ih =>
    obtain ⟨rounds,rfl⟩ : ∃ more, rounds = more+1 := ⟨rounds-1,by omega⟩
    have number : Number fatsize low := ⟨numbers,by omega⟩
    rw [free_step room] at free
    rw [free_from,get_number number]
    by_cases zero : fat low = 0
    · rw [if_pos zero] at free ⊢
      obtain ⟨rfl,same⟩ := List.cons.inj free
      exact ⟨rfl,same⟩
    · rw [if_neg zero] at free ⊢
      have further : low+1 < high := by
        have member : c ∈ free_clusters fat (low+1) high := by rw [free]; exact mem_cons_self
        have := mem_free.mp member
        omega
      exact ih free (by omega) (by omega) further (by omega)

theorem next_free_cons {rest : List ℕ} (free : free_clusters fat low high = c :: rest) (numbers : 2 ≤ low)
    (bound : high ≤ fatsize.bad) : next_free fatsize fat low = c ∧ free_clusters fat (c+1) high = rest :=
  free_cons free numbers bound le_rfl

end
end UBoot.Fat
