import UBoot.EfiLoadPe

/-!
What `efi_loader_relocate` of `lib/efi_loader/efi_image_loader.c` leaves in memory. Places are
offsets from the start of the image, and the table may be in the image, as that of a PE file is:
a fix-up that changes the table in front of the loop changes what is still to be read.
-/
namespace UBoot.EfiRelocate
open UBoot.EfiLoadPe UBoot.EfiPe UBoot.Buffers UBoot.Memory UBoot.Runs List

/-! ## Fix-ups -/

structure FixUp where
  place : ℕ
  width : ℕ
  addend : ℕ

def FixUp.apply (m : ℕ → UInt8) (f : FixUp) : ℕ → UInt8 := store m f.place (little f.width (field m f.place f.width+f.addend))

def Apart (f g : FixUp) : Prop := f.place+f.width ≤ g.place ∨ g.place+g.width ≤ f.place

/-- Each target is increased once, and every other byte is kept. -/
structure Relocated (fix_ups : List FixUp) (m m' : ℕ → UInt8) : Prop where
  targets : ∀ f ∈ fix_ups, field m' f.place f.width = (field m f.place f.width+f.addend)%256^f.width
  others : ∀ i, (∀ f ∈ fix_ups, i < f.place ∨ f.place+f.width ≤ i) → m' i = m i

theorem apply_outside (m : ℕ → UInt8) {f : FixUp} {i : ℕ} (outside : i < f.place ∨ f.place+f.width ≤ i) : f.apply m i = m i := by
  rcases outside with low | high
  · exact store_below _ _ low
  · exact store_above _ _ (by rwa [little_length])

theorem apply_field (m : ℕ → UInt8) (f : FixUp) : field (f.apply m) f.place f.width = (field m f.place f.width+f.addend)%256^f.width := by
  have back := load_store m f.place (little f.width (field m f.place f.width+f.addend))
  rw [little_length] at back
  rw [field,FixUp.apply,back,number_little]

theorem field_apart (m : ℕ → UInt8) {f g : FixUp} (apart : Apart f g) : field (f.apply m) g.place g.width = field m g.place g.width :=
  congrArg number (load_congr fun i inside => apply_outside m (by rcases apart with low | high <;> omega))

/-- Fix-ups that are apart from each other, one after the other. -/
theorem relocated_of_apart {fix_ups : List FixUp} (apart : fix_ups.Pairwise Apart) (m : ℕ → UInt8) :
    Relocated fix_ups m (fix_ups.foldl FixUp.apply m) := by
  induction fix_ups generalizing m with
  | nil => exact ⟨by simp,fun _ _ => rfl⟩
  | cons f rest ih =>
    obtain ⟨first,later⟩ := pairwise_cons.mp apart
    obtain ⟨targets,others⟩ := ih later (f.apply m)
    refine ⟨?_,fun i outside => ?_⟩
    · intro g member
      rcases mem_cons.mp member with rfl | member
      · rw [← apply_field]
        refine congrArg number (load_congr fun i inside => others _ fun h behind => ?_)
        rcases first h behind with low | high <;> omega
      · exact (targets g member).trans (by rw [field_apart m (first g member)])
    · rw [foldl_cons,others i fun g member => outside g (mem_cons_of_mem _ member)]
      exact apply_outside m (outside f mem_cons_self)

theorem relocated_zero {fix_ups : List FixUp} {m : ℕ → UInt8} (zero : ∀ f ∈ fix_ups, f.addend = 0) : Relocated fix_ups m m := by
  refine ⟨fun f member => ?_,fun _ _ => rfl⟩
  have fits := number_lt (load m f.place f.width)
  rw [load_length] at fits
  rw [zero f member,add_zero]
  exact (Nat.mod_eq_of_lt fits).symm

section
variable (memory : ℕ → UInt8) (delta stop : ℕ)

/-- The fix-ups of so many entries of a block. -/
def block_fix_ups (VirtualAddress : ℕ) : ℕ → ℕ → List FixUp
  | 0, _ => []
  | left+1, relocs =>
    let entry := field memory relocs 2
    let rest := block_fix_ups VirtualAddress left (relocs+2)
    (fix_up delta (entry/0x1000)).elim rest fun found => ⟨VirtualAddress+entry%0x1000,found.1,found.2⟩ :: rest

def block_entries (rel : ℕ) : ℕ := (field memory (rel+4) 4-relocation_size)/2

/-- The fix-ups of the table from a block on. -/
def table_fix_ups (rel : ℕ) : List FixUp :=
  if rel+relocation_size < stop then
    block_fix_ups memory delta (field memory rel 4) (block_entries memory rel) (rel+relocation_size) ++
      table_fix_ups (rel+relocation_size+2*block_entries memory rel)
  else []
termination_by stop-rel
decreasing_by
  unfold relocation_size at *
  omega

end

theorem block_addend {memory : ℕ → UInt8} {VirtualAddress left relocs : ℕ} {f : FixUp}
    (member : f ∈ block_fix_ups memory 0 VirtualAddress left relocs) : f.addend = 0 := by
  induction left generalizing relocs with
  | zero => cases member
  | succ left ih =>
    rw [block_fix_ups] at member
    cases known : fix_up 0 (field memory relocs 2/0x1000) with
    | none =>
      rw [known] at member
      exact ih member
    | some found =>
      rw [known] at member
      rcases mem_cons.mp member with rfl | member
      · unfold fix_up at known
        show found.2 = 0
        split_ifs at known <;> simp [← Option.some.inj known]
      · exact ih member

theorem table_addend {memory : ℕ → UInt8} {stop rel : ℕ} {f : FixUp} (member : f ∈ table_fix_ups memory 0 stop rel) : f.addend = 0 := by
  induction rel using table_fix_ups.induct memory stop with
  | case1 rel more ih =>
    rw [table_fix_ups,if_pos more] at member
    rcases mem_append.mp member with here | later
    · exact block_addend here
    · exact ih later
  | case2 rel ended =>
    rw [table_fix_ups,if_neg ended] at member
    cases member

/-! ## The loop -/

section
variable {memory : ℕ → UInt8} {table efi_reloc delta virt_size stop : ℕ}

/-- The fix-up of an entry leaves what is read of the table behind it: the entries and blocks that
    follow, and the address of its own block in front of another entry. -/
def Keeps (delta stop : ℕ) (w : Walk) : Prop :=
  ∀ width addend, fix_up delta (entry_type w) = some (width,addend) →
    ∀ i, w.relocs+2 ≤ i ∧ i < stop ∨ 1 < w.left ∧ w.rel ≤ i ∧ i < w.rel+4 → (FixUp.apply w.memory ⟨target w,width,addend⟩) i = w.memory i

def KeepsStep (delta stop : ℕ) (s : Relocating) (_ : Unit) : Prop :=
  match s with
  | .goes_on w => w.left = 0 ∨ Keeps delta stop w
  | .returns _ _ => True

theorem keeps_apart {w : Walk} (low : target w+8 ≤ w.rel) (own : w.rel ≤ w.relocs) : Keeps delta stop w := by
  intro width addend known i later
  have wide := fix_up_width known
  exact apply_outside _ (.inr (show target w+width ≤ i by omega))

theorem keeps_absolute {w : Walk} (absolute : entry_type w = IMAGE_REL_BASED_ABSOLUTE) : Keeps delta stop w := by
  intro width addend known
  rw [absolute] at known
  cases known

/-- The table is read, or a place in the image is read or written. -/
def Within (table virt_size stop : ℕ) : Access → Prop
  | .read_loaded offset size => table ≤ offset ∧ offset+size ≤ stop ∨ offset+size ≤ virt_size
  | .write_loaded offset size => offset+size ≤ virt_size
  | .read_image _ _ => False

/-- The loop has done the fix-ups in front of the place in the table where it stands. -/
structure Standing (memory : ℕ → UInt8) (table delta virt_size stop : ℕ) (w : Walk) : Prop where
  start : table ≤ w.relocs
  entries : w.relocs+2*w.left ≤ stop
  accesses : ∀ a ∈ w.accesses, Within table virt_size stop a
  behind : ∀ i, w.relocs ≤ i → i < stop → w.memory i = memory i
  block : w.left ≠ 0 → table ≤ w.rel ∧ w.rel+relocation_size ≤ stop ∧ field memory w.rel 4 ≤ virt_size ∧
    field w.memory w.rel 4 = field memory w.rel 4
  done : ∃ front, w.memory = front.foldl FixUp.apply memory ∧ table_fix_ups memory delta stop table =
    front ++ (block_fix_ups memory delta (field memory w.rel 4) w.left w.relocs ++ table_fix_ups memory delta stop (w.relocs+2*w.left))

/-- What is left of it when the loop has returned. -/
def Ends (memory : ℕ → UInt8) (table delta virt_size stop : ℕ) : Relocating → Prop
  | .goes_on w => Standing memory table delta virt_size stop w
  | .returns status w => (∀ a ∈ w.accesses, Within table virt_size stop a) ∧
    (status = .EFI_SUCCESS → w.memory = (table_fix_ups memory delta stop table).foldl FixUp.apply memory)

theorem within_append {accesses more : List Access} (old : ∀ a ∈ accesses, Within table virt_size stop a)
    (new : ∀ a ∈ more, Within table virt_size stop a) : ∀ a ∈ accesses ++ more, Within table virt_size stop a := by
  intro a member
  rcases mem_append.mp member with early | late
  · exact old a early
  · exact new a late

theorem field_same {m m' : ℕ → UInt8} {offset n : ℕ} (same : ∀ i, offset ≤ i → i < offset+n → m i = m' i) :
    field m offset n = field m' offset n :=
  congrArg number (load_congr fun i inside => same _ (by omega) (by omega))

theorem next_block_ends {w : Walk} (standing : Standing memory table delta virt_size stop w) (last : w.left = 0) :
    Ends memory table delta virt_size stop (next_block efi_reloc virt_size stop w) := by
  obtain ⟨start,entries,accesses,behind,-,front,memoryIs,fix_ups⟩ := standing
  rw [last] at fix_ups
  have empty : block_fix_ups memory delta (field memory w.rel 4) 0 w.relocs = [] := rfl
  rw [empty,nil_append,mul_zero,add_zero] at fix_ups
  rw [table_fix_ups.eq_def _ _ _ w.relocs] at fix_ups
  unfold next_block
  simp only
  by_cases more : w.relocs+relocation_size < stop
  swap
  · rw [if_neg more,append_nil] at fix_ups
    rw [if_neg more]
    exact ⟨accesses,fun _ => by rw [memoryIs,fix_ups]⟩
  rw [if_pos more] at fix_ups ⊢
  have read : ∀ a ∈ w.accesses ++ [.read_loaded w.relocs relocation_size], Within table virt_size stop a :=
    within_append accesses (by
      intro a member
      rw [mem_singleton.mp member]
      exact .inl ⟨start,more.le⟩)
  split
  · exact ⟨accesses,fun no => by cases no⟩
  split
  · exact ⟨read,fun no => by cases no⟩
  split
  · exact ⟨read,fun no => by cases no⟩
  split
  · exact ⟨read,fun no => by cases no⟩
  next small long low =>
  have address : field w.memory w.relocs 4 = field memory w.relocs 4 :=
    field_same fun i low_ high => behind i low_ (by unfold relocation_size at more; omega)
  have size : field w.memory (w.relocs+4) 4 = field memory (w.relocs+4) 4 :=
    field_same fun i low_ high => behind i (by omega) (by unfold relocation_size at more; omega)
  refine ⟨by simp only; omega,?_,read,fun i low_ => behind i (by simp only at low_; omega),fun _ => ?_,front,memoryIs,?_⟩
  · simp only
    unfold relocation_size at *
    omega
  · simp only
    exact ⟨start,more.le,by omega,address⟩
  · simp only [size]
    exact fix_ups

theorem next_entry_ends {w : Walk} (standing : Standing memory table delta virt_size stop w) (small : virt_size < 2^32)
    (entry : w.left ≠ 0) (keeps : Keeps delta stop w) : Ends memory table delta virt_size stop (next_entry delta virt_size w) := by
  obtain ⟨start,entries,accesses,behind,block,front,memoryIs,fix_ups⟩ := standing
  obtain ⟨own,header,address,same⟩ := block entry
  obtain ⟨left,leftIs⟩ := Nat.exists_eq_succ_of_ne_zero entry
  unfold relocation_size at header
  have here : field memory w.relocs 2 = field w.memory w.relocs 2 :=
    field_same fun i low_ high => (behind i low_ (by omega)).symm
  have read : ∀ a ∈ w.accesses ++ [.read_loaded w.relocs 2,.read_loaded w.rel 4], Within table virt_size stop a := by
    refine within_append accesses ?_
    intro a member
    simp only [mem_cons,not_mem_nil,or_false] at member
    rcases member with rfl | rfl
    · exact .inl ⟨start,by omega⟩
    · exact .inl ⟨own,by omega⟩
  have next : w.relocs+2*w.left = w.relocs+2+2*(w.left-1) := by omega
  have more : w.left-1 = left := by omega
  rw [next,more,leftIs,block_fix_ups,here] at fix_ups
  have place : entry_offset w ≤ virt_size-field memory w.rel 4 → target w = field memory w.rel 4+entry_offset w := by
    intro near
    rw [target,same]
    omega
  unfold next_entry
  simp only
  rw [same,minus_of_le address (by omega)]
  split_ifs with far absolute
  · exact ⟨read,fun no => by cases no⟩
  · have none_ : fix_up delta (field w.memory w.relocs 2/0x1000) = none := by
      unfold entry_type at absolute
      rw [absolute]
      rfl
    rw [none_] at fix_ups
    exact ⟨by simp only; omega,by simp only; omega,read,fun i low_ => behind i (by simp only at low_; omega),
      fun _ => ⟨own,header,address,same⟩,front,memoryIs,by simp only [more]; exact fix_ups⟩
  cases known : fix_up delta (entry_type w) with
  | none => exact ⟨read,fun no => by cases no⟩
  | some found =>
    obtain ⟨width,addend⟩ := found
    have inside := place (by omega)
    simp only
    rw [minus_of_le (by omega) (by omega)]
    split_ifs with beyond
    · exact ⟨read,fun no => by cases no⟩
    unfold entry_type at known
    rw [known] at fix_ups
    have kept := keeps width addend known
    refine ⟨by simp only; omega,by simp only; omega,within_append read ?_,?_,fun again => ?_,front ++ [⟨target w,width,addend⟩],?_,?_⟩
    · intro a member
      simp only [mem_cons,not_mem_nil,or_false] at member
      rcases member with rfl | rfl
      · exact .inr (by omega)
      · show target w+width ≤ virt_size
        omega
    · intro i low_ high
      simp only at low_
      exact (kept i (.inl ⟨low_,high⟩)).trans (behind i (by omega) high)
    · simp only at again
      exact ⟨own,header,address,(field_same fun i low_ high => kept i (.inr ⟨by omega,low_,high⟩)).trans same⟩
    · rw [foldl_append,← memoryIs]
      rfl
    · simp only [more,append_assoc,singleton_append]
      rw [inside]
      exact fix_ups

theorem run_ends (small : virt_size < 2^32) {steps : List Unit} {w : Walk} (standing : Standing memory table delta virt_size stop w)
    (keeps : Along (step efi_reloc delta virt_size stop) (KeepsStep delta stop) (.goes_on w) steps) :
    Ends memory table delta virt_size stop (run (step efi_reloc delta virt_size stop) (.goes_on w) steps) := by
  refine @invariant _ _ (step efi_reloc delta virt_size stop) (Ends memory table delta virt_size stop) (KeepsStep delta stop) ?_ _ _
    standing keeps
  intro s _ ends keeps
  cases s with
  | goes_on w =>
    rw [step]
    split
    · next last => exact next_block_ends ends last
    · next entry => exact next_entry_ends ends small entry (keeps.resolve_left entry)
  | returns status w => exact ends

/-! ## The end of the loop -/

theorem run_returned (status : Status) (w : Walk) (steps : List Unit) :
    run (step efi_reloc delta virt_size stop) (.returns status w) steps = .returns status w := by
  induction steps with
  | nil => rfl
  | cons _ steps ih => exact ih

theorem along_returned (status : Status) (w : Walk) (steps : ℕ) :
    Along (step efi_reloc delta virt_size stop) (KeepsStep delta stop) (.returns status w) (replicate steps ()) := by
  induction steps with
  | zero => trivial
  | succ steps ih => exact ⟨trivial,ih⟩

/-- A step returns or goes on in the table. -/
theorem step_forward {w : Walk} (entries : w.relocs+2*w.left ≤ stop) :
    (∃ status w', step efi_reloc delta virt_size stop (.goes_on w) () = .returns status w') ∨
      ∃ w', step efi_reloc delta virt_size stop (.goes_on w) () = .goes_on w' ∧ w.relocs < w'.relocs ∧ w'.relocs+2*w'.left ≤ stop := by
  rw [step]
  split_ifs with last
  · unfold next_block
    simp only
    split_ifs with more aligned small long low
    · exact .inl ⟨_,_,rfl⟩
    · exact .inl ⟨_,_,rfl⟩
    · exact .inl ⟨_,_,rfl⟩
    · refine .inr ⟨_,rfl,?_,?_⟩
      · simp only
        unfold relocation_size
        omega
      · simp only
        unfold relocation_size at *
        omega
    · exact .inl ⟨_,_,rfl⟩
    · exact .inl ⟨_,_,rfl⟩
  · unfold next_entry
    simp only
    split_ifs with far absolute
    · exact .inl ⟨_,_,rfl⟩
    · exact .inr ⟨_,rfl,by simp only; omega,by simp only; omega⟩
    · cases fix_up delta (entry_type w) with
      | none => exact .inl ⟨_,_,rfl⟩
      | some found =>
        simp only
        split_ifs with beyond
        · exact .inl ⟨_,_,rfl⟩
        · exact .inr ⟨_,rfl,by simp only; omega,by simp only; omega⟩

theorem run_returns (n : ℕ) {w : Walk} (entries : w.relocs+2*w.left ≤ stop) (near : stop ≤ w.relocs+n) :
    ∃ status w', run (step efi_reloc delta virt_size stop) (.goes_on w) (replicate (n+1) ()) = .returns status w' := by
  induction n generalizing w with
  | zero =>
    rcases @step_forward efi_reloc delta virt_size stop w entries with ⟨status,w',ret⟩ | ⟨w',-,forward,entries'⟩
    · exact ⟨status,w',ret⟩
    · omega
  | succ n ih =>
    rcases @step_forward efi_reloc delta virt_size stop w entries with ⟨status,w',ret⟩ | ⟨w',goes,forward,entries'⟩
    · refine ⟨status,w',?_⟩
      rw [replicate_succ,run_cons,ret,run_returned]
    · obtain ⟨status,w'',ret⟩ := ih entries' (by omega)
      refine ⟨status,w'',?_⟩
      rw [replicate_succ,run_cons,goes,ret]

end

section
variable (memory : ℕ → UInt8) (rel rel_size efi_reloc pref_address virt_size : ℕ)

/-- The function returns, stays inside the table and the image, and does each fix-up of the table
    once if they are apart. -/
structure Exact : Prop where
  returns : ∃ steps status w, efi_loader_relocate memory rel rel_size efi_reloc pref_address virt_size [] steps = .returns status w
  inside : ∀ steps, ∀ a ∈ (efi_loader_relocate memory rel rel_size efi_reloc pref_address virt_size [] steps).walk.accesses,
    Within rel virt_size (rel+rel_size) a
  relocated : ∀ steps w, efi_loader_relocate memory rel rel_size efi_reloc pref_address virt_size [] steps = .returns .EFI_SUCCESS w →
    (table_fix_ups memory (minus efi_reloc pref_address) (rel+rel_size) rel).Pairwise Apart →
      Relocated (table_fix_ups memory (minus efi_reloc pref_address) (rel+rel_size) rel) memory w.memory

variable {memory rel rel_size efi_reloc pref_address virt_size}

end

/-- A block for the start of the image at 4096, with one DIR64 and one that does nothing. -/
def start_fixed : ℕ → UInt8 := store (fun _ => 0) 4096 [0,0,0,0,12,0,0,0,0,0xa0,0,0]

/-- A block at 4096 whose first fix-up is its own address, which is then beyond the image. -/
def own_address : ℕ → UInt8 := store (fun _ => 0) 4096 [0,0x10,0,0,12,0,0,0,0,0x30,0,0x30]

end UBoot.EfiRelocate
