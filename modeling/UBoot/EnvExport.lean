import UBoot.EnvText

/-!
The two passes of `hexport_r`: the first one counts the bytes of the block, the second one writes
them. Where the separator is the terminator the first pass leaves the escapes out that the second
one writes.
-/
namespace UBoot.EnvText
open UBoot.Hashtable List

/-- The bytes that pass 2 stores before the terminator. -/
def pass2_text (htab : Htab) (sep : UInt8) (hide_dot : Bool) : Str :=
  (((exported htab hide_dot).mergeSort cmpkey).map (entry_text sep)).flatten

def exported_backslashes (htab : Htab) (hide_dot : Bool) : Nat :=
  ((exported htab hide_dot).map fun slot => slot.data.count BACKSLASH).sum

def Strings (htab : Htab) (hide_dot : Bool) : Prop := ∀ slot ∈ exported htab hide_dot, ∀ c ∈ slot.data, c ≠ NUL

theorem pass2_length {htab : Htab} {hide_dot : Bool} (strings : Strings htab hide_dot) (sep : UInt8) :
    (pass2_text htab sep hide_dot).length =
      totlen htab sep hide_dot+(if sep = NUL then exported_backslashes htab hide_dot else 0) := by
  have perm : ((exported htab hide_dot).mergeSort cmpkey).Perm (exported htab hide_dot) := mergeSort_perm _ _
  rw [pass2_text,text_length (fun slot member => strings slot (perm.mem_iff.mp member)),
    (perm.map fun slot => slot.key.length+data_len sep slot.data+2).sum_eq,
    (perm.map fun slot => slot.data.count BACKSLASH).sum_eq]
  rfl

theorem exported_backslashes_zero {htab : Htab} {hide_dot : Bool} :
    exported_backslashes htab hide_dot = 0 ↔ ∀ slot ∈ exported htab hide_dot, BACKSLASH ∉ slot.data := by
  rw [exported_backslashes,sum_eq_zero_iff]
  simp only [mem_map,forall_exists_index,and_imp,forall_apply_eq_imp_iff₂,count_eq_zero]

/-- What is stored ends in the buffer when the escapes that were not counted fit too; the passes
    agree when there are none. -/
theorem hexport_inside_iff {htab : Htab} {hide_dot : Bool} (strings : Strings htab hide_dot) (sep : UInt8) (size : Nat) :
    (hexport_r htab sep hide_dot size ≠ .overrun ↔
      (size ≠ 0 ∧ size < totlen htab sep hide_dot+1) ∨ sep ≠ NUL ∨
        totlen htab sep hide_dot+exported_backslashes htab hide_dot+1 ≤ buffer_size htab sep hide_dot size) ∧
    ((pass2_text htab sep hide_dot).length = totlen htab sep hide_dot ↔
      sep ≠ NUL ∨ ∀ slot ∈ exported htab hide_dot, BACKSLASH ∉ slot.data) := by
  have length := pass2_length strings sep
  constructor
  · by_cases refused : size ≠ 0 ∧ size < totlen htab sep hide_dot+1
    · rw [hexport_r,if_pos refused]
      simp [refused]
    · have large : totlen htab sep hide_dot+1 ≤ buffer_size htab sep hide_dot size := by
        rw [buffer_size]
        split_ifs <;> omega
      have stored : hexport_r htab sep hide_dot size ≠ .overrun ↔
          (pass2_text htab sep hide_dot).length+1 ≤ buffer_size htab sep hide_dot size := by
        have text : (pass2_text htab sep hide_dot ++ [NUL]).length = (pass2_text htab sep hide_dot).length+1 := by simp
        rw [hexport_r,if_neg refused,← text]
        by_cases long : buffer_size htab sep hide_dot size < (pass2_text htab sep hide_dot ++ [NUL]).length
        · rw [if_pos (by exact long)]
          simp only [ne_eq,not_true_eq_false,false_iff]
          omega
        · rw [if_neg (by exact long)]
          simp only [ne_eq,reduceCtorEq,not_false_eq_true,true_iff]
          omega
      rw [stored,length]
      by_cases nul : sep = NUL
      · simp only [nul,if_true,ne_eq,not_true_eq_false,false_or]
        rw [nul] at refused
        simp only [refused,false_or]
      · simp only [nul,if_false,ne_eq,not_false_eq_true,true_or,or_true,iff_true]
        omega
  · rw [length,← exported_backslashes_zero]
    by_cases nul : sep = NUL
    · simp [nul]
    · simp [nul]

def letter_table : Htab := ⟨[⟨0,[],[]⟩,⟨0,[],[]⟩,⟨0,[],[]⟩,⟨3,[97],[121]⟩,⟨4,[98],[120]⟩,⟨0,[],[]⟩],5,2⟩

theorem letter_table_inside : hexport_r letter_table NUL false 9 ≠ .overrun := by
  have entries : exported letter_table false = [⟨3,[97],[121]⟩,⟨4,[98],[120]⟩] := by decide
  refine (hexport_inside_iff (fun slot member => ?_) NUL 9).1.mpr (.inr (.inr (by decide)))
  rw [entries] at member
  simp only [List.mem_cons,List.not_mem_nil,or_false] at member
  rcases member with rfl | rfl <;> simp [NUL]

/-- A buffer of just the size that pass 1 asks for. -/
theorem backslash_overrun :
    ¬ ∀ (htab : Htab) (sep : UInt8) (size : Nat), Strings htab false → hexport_r htab sep false size ≠ .overrun := by
  intro claim
  have strings : Strings backslash_table false := fun slot member =>
    (backslash_table_good (.inl rfl) slot.key slot.data (exported_stores.mpr ⟨slot,member,rfl,rfl⟩)).2.plain
  refine claim backslash_table NUL 11 strings ?_
  rw [hexport_text (backslash_table_good (.inl rfl)),if_neg (by decide),if_pos (by decide)]

end UBoot.EnvText
