import UBoot.BestPick
import UBoot.FitConfigSig
import UBoot.OfNode

/-!
The configuration of a FIT that suits the board best, `fit_conf_find_compat` of `boot/image-fit.c`:
the strings of U-Boot's `compatible` property are looked for in turn, and the configuration that has
the earliest one is picked, where `default` breaks ties. `fdt_stringlist_contains` compares behind
the end of the list: the empty string is found in every list with a zero behind it.
-/
namespace UBoot.FitConfigCompat
open UBoot.Fdt UBoot.BestPick List Option
open UBoot.FitConfigSig (ENOENT images_name confs_name FIT_COMPAT_PROP FIT_DEFAULT_PROP fdt32 subnode_offset_member)

def ENXIO : ℤ := 6
def EINVAL : ℤ := 22
def INT_MAX : ℕ := 2^31-1
def UINTPTR_MAX : ℕ := 2^64-1

def FIT_FDT_PROP : List Char := "fdt".toList
def FIT_COMP_PROP : List Char := "compression".toList
def FIT_DATA_PROP : List Char := "data".toList
def FIT_DATA_OFFSET_PROP : List Char := "data-offset".toList
def FIT_DATA_POSITION_PROP : List Char := "data-position".toList
def FIT_DATA_SIZE_PROP : List Char := "data-size".toList

/-- A device tree, and the byte behind the `compatible` property of a node. -/
structure Tree where
  tags : Blob
  behind : ℕ → Char

structure Fit where
  tree : Tree
  totalsize : ℕ
  address : ℕ

/-- Where the data of an image is: in its property, or at an offset from the FIT. -/
inductive Data where
  | embedded (value : List Char)
  | external (offset size : ℕ)

def c_string (value : List Char) : List Char := value.takeWhile (· ≠ NUL)

/-- `fdt_stringlist_contains`, with the byte behind the list, for a number of rounds. -/
def fdt_stringlist_contains (behind : Char) (str : List Char) : ℕ → List Char → Bool
  | 0, _ => false
  | rounds+1, strlist =>
    if strlist.length < str.length then false
    -- `memcmp` with the terminator of `str`, which may be compared with the byte behind
    else if (strlist ++ [behind]).take (str.length+1) = str ++ [NUL] then true
    else
      match strlist.dropWhile (· ≠ NUL) with
      | [] => false
      | _ :: rest => fdt_stringlist_contains behind str rounds rest

def fdt_node_check_compatible (tree : Tree) (node : ℕ) (compatible : List Char) : Bool :=
  match fdt_getprop tree.tags node FIT_COMPAT_PROP with
  | none => false
  | some prop => fdt_stringlist_contains (tree.behind node) compatible (prop.length+1) prop

/-- The names in `uimage_comp`, in order; the first one is `IH_COMP_NONE`. -/
def uimage_comp : List (List Char) :=
  ["none".toList,"bzip2".toList,"gzip".toList,"lzma".toList,"lzo".toList,"lz4".toList,"zstd".toList]

def IH_COMP_NONE : ℕ := 0

/-- `genimg_get_comp_id`: a name is found in any case. -/
def genimg_get_comp_id (name : List Char) : Option ℕ := uimage_comp.findIdx? (· = name.map Char.toLower)

def fit_image_check_comp (fit : Fit) (noffset comp : ℕ) : Bool :=
  match fdt_getprop fit.tree.tags noffset FIT_COMP_PROP with
  | none => false
  | some data => genimg_get_comp_id (c_string data) = some comp

section
variable (FIT_SIGNATURE_MAX_SIZE : Option ℕ) (device_tree : Data → Tree)

/-- Where the data outside the FIT starts, if it is outside; an error for a bad offset. -/
def external_offset (fit : Fit) (noffset : ℕ) : Except ℤ (Option ℕ) :=
  match fdt_getprop fit.tree.tags noffset FIT_DATA_POSITION_PROP with
  | some val => if INT_MAX < fdt32 val then .error (-EINVAL) else .ok (some (fdt32 val))
  | none =>
    match fdt_getprop fit.tree.tags noffset FIT_DATA_OFFSET_PROP with
    | none => .ok none
    | some val =>
      let fdt_total_size_aligned := (fit.totalsize+3)%2^32/4*4
      if INT_MAX < fdt32 val ∨ INT_MAX < fdt_total_size_aligned+fdt32 val then .error (-EINVAL)
      else .ok (some (fdt32 val+fdt_total_size_aligned))

/-- `fit_image_get_data`; the sizes are limited in a build that checks signatures. -/
def fit_image_get_data (fit : Fit) (noffset : ℕ) : Except ℤ Data :=
  match external_offset fit noffset with
  | .error e => .error e
  | .ok none =>
    match fdt_getprop fit.tree.tags noffset FIT_DATA_PROP with
    | none => .error (-1)
    | some data => .ok (.embedded data)
  | .ok (some offset) =>
    let max_offset := UINTPTR_MAX-fit.address
    if max_offset < offset then .error (-EINVAL)
    else
      match fdt_getprop fit.tree.tags noffset FIT_DATA_SIZE_PROP with
      | none => .error (-ENOENT)
      | some val =>
        let len := fdt32 val
        if INT_MAX < len ∨ max_offset-offset < len then .error (-EINVAL)
        else if FIT_SIGNATURE_MAX_SIZE.any fun limit => limit < offset ∨ limit-offset < len then .error (-EINVAL)
        else .ok (.external offset len)

/-- The tree and the node in it whose `compatible` property stands for a configuration:
    its own, or the root of its device tree. -/
def compat_source (fit : Fit) (images_noffset noffset : ℕ) : Option (Tree × ℕ) :=
  match fdt_getprop fit.tree.tags noffset FIT_COMPAT_PROP with
  | some _ => some (fit.tree,noffset)
  | none =>
    match fdt_getprop fit.tree.tags noffset FIT_FDT_PROP with
    | none => none
    | some kfdt_name =>
      match fdt_subnode_offset fit.tree.tags images_noffset (c_string kfdt_name) with
      | none => none
      | some kfdt_noffset =>
        if fit_image_check_comp fit kfdt_noffset IH_COMP_NONE then
          match fit_image_get_data FIT_SIGNATURE_MAX_SIZE fit kfdt_noffset with
          | .error _ => none
          | .ok data => some (device_tree data,0)
        else none

/-- The strings of a `compatible` property; the last one may end with the byte behind. -/
def strings (behind : Char) (list : List Char) : List (List Char) :=
  let (terminated,last) := stringlist list
  if last ≠ [] ∧ behind = NUL then terminated ++ [last] else terminated

/-- The inner loop, from an index on: where the configuration becomes the best one. -/
def match_loop (check : List Char → Bool) (improves : ℕ → Bool) : ℕ → List (List Char) → Option ℕ
  | _, [] => none
  | i, cur_fdt_compat :: rest =>
    if improves i then
      if check cur_fdt_compat then some i else match_loop check improves (i+1) rest
    else none

/-- One configuration, with the best one so far and its position; none has the offset zero. -/
def conf_step (fit : Fit) (images_noffset : ℕ) (default_noffset : Option ℕ) (fdt_compat : List (List Char))
    (best : ℕ × ℕ) (noffset : ℕ) : ℕ × ℕ :=
  match compat_source FIT_SIGNATURE_MAX_SIZE device_tree fit images_noffset noffset with
  | none => best
  | some (fdt,compat_noffset) =>
    let improves i : Bool := best.1 = 0 ∨ i < best.2 ∨ (best.2 = i ∧ some noffset = default_noffset)
    match match_loop (fdt_node_check_compatible fdt compat_noffset) improves 0 fdt_compat with
    | none => best
    | some i => (noffset,i)

def default_conf (fit : Fit) (confs_noffset : ℕ) : Option ℕ :=
  (fdt_getprop fit.tree.tags confs_noffset FIT_DEFAULT_PROP).bind fun default_name =>
    fdt_subnode_offset fit.tree.tags confs_noffset (c_string default_name)

def fit_conf_find_compat (fit : Fit) (fdt : Tree) : Except ℤ ℕ :=
  match fdt_subnode_offset fit.tree.tags 0 confs_name, fdt_subnode_offset fit.tree.tags 0 images_name with
  | some confs_noffset, some images_noffset =>
    match fdt_getprop fdt.tags 0 FIT_COMPAT_PROP with
    | none => .error (- ENXIO)
    | some fdt_compat =>
      let best := ((subnodes fit.tree.tags confs_noffset).map (·.1)).foldl
        (conf_step FIT_SIGNATURE_MAX_SIZE device_tree fit images_noffset (default_conf fit confs_noffset)
          (strings (fdt.behind 0) fdt_compat)) (0,0)
      if best.1 = 0 then .error (-ENOENT) else .ok best.1
  | _, _ => .error (-EINVAL)

end

/-! ## Lists of strings -/

theorem stringlist_free {s : List Char} (free : NUL ∉ s) : stringlist s = ([],s) := by
  induction s with
  | nil => rfl
  | cons c s ih =>
    have here : c ≠ NUL := fun same => free (same ▸ mem_cons_self)
    rw [stringlist,if_neg here,ih fun member => free (mem_cons_of_mem c member)]

theorem dropWhile_free {s : List Char} (free : NUL ∉ s) (rest : List Char) :
    (s ++ rest).dropWhile (· ≠ NUL) = rest.dropWhile (· ≠ NUL) := by
  refine dropWhile_append_of_pos fun c member => ?_
  have : c ≠ NUL := fun same => free (same ▸ member)
  simpa using this

theorem take_terminated {str s : List Char} (str_free : NUL ∉ str) (s_free : NUL ∉ s) {c : Char} (rest : List Char)
    (bound : str.length ≤ s.length ∨ c = NUL) :
    (s ++ c :: rest).take (str.length+1) = str ++ [NUL] ↔ str = s ∧ c = NUL := by
  induction str generalizing s with
  | nil =>
    cases s with
    | nil => simp
    | cons e s =>
      have : e ≠ NUL := fun same => s_free (same ▸ mem_cons_self)
      simp [this]
  | cons d str ih =>
    have unlike : d ≠ NUL := fun same => str_free (same ▸ mem_cons_self)
    cases s with
    | nil =>
      have ended : c = NUL := by simpa using bound
      simp [ended,Ne.symm unlike]
    | cons e s =>
      have := ih (fun member => str_free (mem_cons_of_mem d member)) (fun member => s_free (mem_cons_of_mem e member))
        (by simpa using bound)
      simp only [length_cons,cons_append,take_succ_cons,List.cons.injEq,this]
      constructor
      · rintro ⟨same,tail,ended⟩
        exact ⟨⟨same.symm,tail⟩,ended⟩
      · rintro ⟨⟨same,tail⟩,ended⟩
        exact ⟨same.symm,tail,ended⟩

theorem stringlist_sizes (list : List Char) :
    (∀ s ∈ (stringlist list).1, s.length < list.length) ∧ (stringlist list).2.length ≤ list.length := by
  induction list with
  | nil => simp [stringlist]
  | cons c list ih =>
    obtain ⟨inside,last⟩ := ih
    rw [stringlist]
    split
    · refine ⟨fun s member => ?_,Nat.le_succ_of_le last⟩
      rcases mem_cons.1 member with rfl | member
      · simp
      · exact Nat.lt_succ_of_lt (inside s member)
    split
    · exact ⟨by simp,by simpa using last⟩
    next first others terminated =>
      rw [terminated] at inside
      refine ⟨fun s member => ?_,Nat.le_succ_of_le last⟩
      rcases mem_cons.1 member with rfl | member
      · simpa using inside first mem_cons_self
      · exact Nat.lt_succ_of_lt (inside s (mem_cons_of_mem first member))

theorem contains_iff {behind : Char} {str : List Char} (free : NUL ∉ str) {rounds : ℕ} {list : List Char}
    (enough : list.length < rounds) :
    fdt_stringlist_contains behind str rounds list = true ↔
      str ∈ (stringlist list).1 ∨ str = (stringlist list).2 ∧ behind = NUL := by
  induction rounds generalizing list with
  | zero => omega
  | succ rounds ih =>
    rw [fdt_stringlist_contains]
    by_cases short : list.length < str.length
    · -- the list is too short for the string
      have ⟨inside,last⟩ := stringlist_sizes list
      rw [if_pos short]
      constructor
      · intro found
        cases found
      · rintro (member | ⟨same,-⟩)
        · have := inside str member
          omega
        · rw [← same] at last
          omega
    rw [if_neg short]
    by_cases ends : NUL ∈ list
    · obtain ⟨s,rest,split,s_free⟩ := eq_append_cons_of_mem ends
      have compared := take_terminated free s_free (rest ++ [behind]) (.inr rfl : str.length ≤ s.length ∨ NUL = NUL)
      have split' : list ++ [behind] = s ++ NUL :: (rest ++ [behind]) := by simp [split]
      have later : list.dropWhile (· ≠ NUL) = NUL :: rest := by
        rw [split,dropWhile_free s_free]
        simp
      have left : rest.length < rounds := by
        have := congrArg List.length split
        simp at this
        omega
      have parts : stringlist list = (s :: (stringlist rest).1,(stringlist rest).2) := by
        rw [split,OfNode.stringlist_terminated s_free rest]
      rw [later,parts,split']
      by_cases same : str = s
      · rw [if_pos (compared.2 ⟨same,rfl⟩)]
        simp [same]
      · rw [if_neg fun equal => same (compared.1 equal).1]
        simp [ih left,same]
    · have compared := take_terminated free ends ([] : List Char) (.inl (by omega) : str.length ≤ list.length ∨ behind = NUL)
      have later : list.dropWhile (· ≠ NUL) = [] := by
        rw [← append_nil list,dropWhile_free ends]
        rfl
      rw [later,stringlist_free ends]
      by_cases equal : str = list ∧ behind = NUL
      · rw [if_pos (compared.2 equal)]
        simp [equal]
      · rw [if_neg fun taken => equal (compared.1 taken)]
        simp [equal]

/-! ## The best configuration -/

section
variable (FIT_SIGNATURE_MAX_SIZE : Option ℕ) (device_tree : Data → Tree)

local instance names_lawful : LawfulBEq (List Char) := inferInstance

/-- Whether the `compatible` list that stands for a configuration contains a string. -/
def suits (fit : Fit) (images_noffset noffset : ℕ) (s : List Char) : Bool :=
  match compat_source FIT_SIGNATURE_MAX_SIZE device_tree fit images_noffset noffset with
  | none => false
  | some (tree,node) =>
    match fdt_getprop tree.tags node FIT_COMPAT_PROP with
    | none => false
    | some list => s ∈ strings (tree.behind node) list

/-- Whether the list that stands for a configuration has a zero behind its last terminator. -/
def trailing (fit : Fit) (images_noffset noffset : ℕ) : Bool :=
  match compat_source FIT_SIGNATURE_MAX_SIZE device_tree fit images_noffset noffset with
  | none => false
  | some (tree,node) =>
    match fdt_getprop tree.tags node FIT_COMPAT_PROP with
    | none => false
    | some list => (stringlist list).2 = [] ∧ tree.behind node = NUL

/-- Whether the code takes a string for one of the list that stands for a configuration. -/
def taken (fit : Fit) (images_noffset noffset : ℕ) (s : List Char) : Bool :=
  match compat_source FIT_SIGNATURE_MAX_SIZE device_tree fit images_noffset noffset with
  | none => false
  | some (tree,node) => fdt_node_check_compatible tree node s

theorem taken_iff (fit : Fit) (images_noffset noffset : ℕ) {s : List Char} (free : NUL ∉ s) :
    taken FIT_SIGNATURE_MAX_SIZE device_tree fit images_noffset noffset s ↔
      suits FIT_SIGNATURE_MAX_SIZE device_tree fit images_noffset noffset s ∨
        s = [] ∧ trailing FIT_SIGNATURE_MAX_SIZE device_tree fit images_noffset noffset := by
  unfold taken suits trailing
  cases compat_source FIT_SIGNATURE_MAX_SIZE device_tree fit images_noffset noffset with
  | none => simp
  | some source =>
    obtain ⟨tree,node⟩ := source
    simp only [fdt_node_check_compatible]
    cases fdt_getprop tree.tags node FIT_COMPAT_PROP with
    | none => simp
    | some list =>
      simp only [contains_iff free (Nat.lt_succ_self list.length),strings,decide_eq_true_eq]
      by_cases last : (stringlist list).2 = []
      · simp [last]
      · by_cases zero : tree.behind node = NUL
        · have other : (stringlist list).2 ≠ [] ∧ tree.behind node = NUL := ⟨last,zero⟩
          simp [other]
        · simp [last,zero]

/-- The place of the first of U-Boot's strings that passes a test, for a configuration. -/
def position (test : ℕ → List Char → Bool) (fdt_compat : List (List Char)) (noffset : ℕ) : Option ℕ :=
  fdt_compat.findIdx? (test noffset)

end

theorem match_loop_spec {check : List Char → Bool} {improves : ℕ → Bool} (earlier : ∀ i, improves (i+1) → improves i)
    (i : ℕ) (fdt_compat : List (List Char)) :
    match_loop check improves i fdt_compat = ((fdt_compat.findIdx? check).map (i+·)).filter improves := by
  induction fdt_compat generalizing i with
  | nil => rfl
  | cons s rest ih =>
    rw [match_loop]
    by_cases better : improves i
    · rw [if_pos better,findIdx?_cons]
      by_cases found : check s
      · simp [found,better,Option.filter]
      · rw [if_neg found,ih]
        simp only [found,Bool.false_eq_true,if_false,Option.map_map]
        congr 2
        funext j
        simp only [Function.comp]
        omega
    · -- no later place is an improvement either
      rw [if_neg better]
      have never (j : ℕ) : improves (i+j) = false := by
        induction j with
        | zero => exact Bool.eq_false_iff.2 better
        | succ j ih => exact Bool.eq_false_iff.2 fun later => by simp [earlier (i+j) later] at ih
      cases (s :: rest).findIdx? check with
      | none => rfl
      | some j => simp [Option.filter,never j]

section
variable {FIT_SIGNATURE_MAX_SIZE : Option ℕ} {device_tree : Data → Tree} {fit : Fit} {confs images : ℕ}

def stored : Option (ℕ × ℕ) → ℕ × ℕ
  | none => (0,0)
  | some best => best

/-- Whether a configuration is the one that `default` names. -/
def is_default (fit : Fit) (confs noffset : ℕ) : Bool := some noffset = default_conf fit confs

theorem conf_step_spec (fdt_compat : List (List Char)) {best : Option (ℕ × ℕ)} (real : ∀ b ∈ best, b.1 ≠ 0) (noffset : ℕ) :
    conf_step FIT_SIGNATURE_MAX_SIZE device_tree fit images (default_conf fit confs) fdt_compat (stored best) noffset =
      stored (better (position (taken FIT_SIGNATURE_MAX_SIZE device_tree fit images) fdt_compat) (is_default fit confs)
        best noffset) := by
  unfold conf_step better position
  cases source : compat_source FIT_SIGNATURE_MAX_SIZE device_tree fit images noffset with
  | none =>
    have never : fdt_compat.findIdx? (taken FIT_SIGNATURE_MAX_SIZE device_tree fit images noffset) = none := by
      rw [findIdx?_eq_none_iff]
      intro s _
      simp [taken,source]
    rw [never]
  | some found =>
    obtain ⟨fdt,node⟩ := found
    have same : taken FIT_SIGNATURE_MAX_SIZE device_tree fit images noffset = fdt_node_check_compatible fdt node := by
      funext s
      simp [taken,source]
    rw [same]
    dsimp only
    rw [match_loop_spec (fun i later => by simp only [decide_eq_true_eq] at later ⊢; omega)]
    cases best with
    | none =>
      cases fdt_compat.findIdx? (fdt_node_check_compatible fdt node) with
      | none => rfl
      | some i => simp [stored,Option.filter]
    | some best =>
      obtain ⟨best_offset,best_pos⟩ := best
      have best_real : best_offset ≠ 0 := real _ rfl
      cases fdt_compat.findIdx? (fdt_node_check_compatible fdt node) with
      | none => rfl
      | some i =>
        by_cases improved : i < best_pos ∨ i = best_pos ∧ is_default fit confs noffset
        · have : i < best_pos ∨ best_pos = i ∧ some noffset = default_conf fit confs := by
            simpa [is_default,eq_comm] using improved
          simp [stored,Option.filter,best_real,improved,this]
        · have : ¬ (i < best_pos ∨ best_pos = i ∧ some noffset = default_conf fit confs) := by
            simpa [is_default,eq_comm] using improved
          simp [stored,Option.filter,best_real,improved,this]

theorem better_real {test : ℕ → Option ℕ} {preferred : ℕ → Bool} {best : Option (ℕ × ℕ)} (real : ∀ b ∈ best, b.1 ≠ 0)
    {noffset : ℕ} (next_real : noffset ≠ 0) : ∀ b ∈ better test preferred best noffset, b.1 ≠ 0 := by
  intro b kept
  unfold better at kept
  split at kept
  · exact real b kept
  · obtain rfl := mem_some_iff.1 kept
    exact next_real
  · split at kept
    · obtain rfl := mem_some_iff.1 kept
      exact next_real
    · exact real b kept

theorem conf_loop_spec (fdt_compat : List (List Char)) (confs_left : List ℕ) {best : Option (ℕ × ℕ)}
    (real : ∀ b ∈ best, b.1 ≠ 0) (all_real : ∀ noffset ∈ confs_left, noffset ≠ 0) :
    ∃ last, (∀ b ∈ last, b.1 ≠ 0) ∧
      last = confs_left.foldl (better (position (taken FIT_SIGNATURE_MAX_SIZE device_tree fit images) fdt_compat)
        (is_default fit confs)) best ∧
      confs_left.foldl (conf_step FIT_SIGNATURE_MAX_SIZE device_tree fit images (default_conf fit confs) fdt_compat)
        (stored best) = stored last := by
  induction confs_left generalizing best with
  | nil => exact ⟨best,real,rfl,rfl⟩
  | cons noffset rest ih =>
    rw [foldl_cons,foldl_cons,conf_step_spec fdt_compat real noffset]
    exact ih (better_real real (all_real noffset mem_cons_self)) fun other member =>
      all_real other (mem_cons_of_mem noffset member)

theorem subnode_positive {fdt : Blob} {parent node : ℕ} {name : List Char} (member : (node,name) ∈ subnodes fdt parent) :
    node ≠ 0 := by
  unfold subnodes at member
  split at member
  · obtain ⟨k,place,-⟩ := @subnodes_from_open [] [] _ _ _ _ member
    omega
  · cases member

def configurations (fit : Fit) (confs : ℕ) : List ℕ := (subnodes fit.tree.tags confs).map (·.1)

/-- The nodes of a FIT that hold its configurations and its images. -/
def Holds (fit : Fit) (confs images : ℕ) : Prop :=
  fdt_subnode_offset fit.tree.tags 0 confs_name = some confs ∧ fdt_subnode_offset fit.tree.tags 0 images_name = some images

/-- U-Boot's own tree has these strings in the `compatible` property of its root. -/
def Compatible (fdt : Tree) (fdt_compat : List (List Char)) : Prop :=
  fdt_getprop fdt.tags 0 FIT_COMPAT_PROP = some (fdt_compat.flatMap (· ++ [NUL])) ∧ ∀ s ∈ fdt_compat, NUL ∉ s

theorem find_compat_spec {fdt : Tree} {fdt_compat : List (List Char)} (holds : Holds fit confs images)
    (compatible : Compatible fdt fdt_compat) :
    (∃ c pos, fit_conf_find_compat FIT_SIGNATURE_MAX_SIZE device_tree fit fdt = .ok c ∧
      Picks (position (taken FIT_SIGNATURE_MAX_SIZE device_tree fit images) fdt_compat) (is_default fit confs)
        (configurations fit confs) c pos) ∨
    fit_conf_find_compat FIT_SIGNATURE_MAX_SIZE device_tree fit fdt = .error (-ENOENT) ∧
      ∀ c ∈ configurations fit confs, position (taken FIT_SIGNATURE_MAX_SIZE device_tree fit images) fdt_compat c = none := by
  have read : strings (fdt.behind 0) (fdt_compat.flatMap (· ++ [NUL])) = fdt_compat := by
    simp [strings,OfNode.stringlist_joined compatible.2]
  have all_real : ∀ noffset ∈ configurations fit confs, noffset ≠ 0 := by
    intro noffset member
    obtain ⟨⟨node,name⟩,inside,rfl⟩ := List.mem_map.1 member
    exact subnode_positive inside
  obtain ⟨last,last_real,scanned,looped'⟩ := @conf_loop_spec FIT_SIGNATURE_MAX_SIZE device_tree fit confs images fdt_compat
    (configurations fit confs) none (fun b found => by cases found) all_real
  have looped : ((subnodes fit.tree.tags confs).map (·.1)).foldl (conf_step FIT_SIGNATURE_MAX_SIZE device_tree fit images
    (default_conf fit confs) fdt_compat) (0,0) = stored last := looped'
  have kept := @scan_picks _ (position (taken FIT_SIGNATURE_MAX_SIZE device_tree fit images) fdt_compat)
    (is_default fit confs) (configurations fit confs)
  rw [← scanned] at kept
  unfold fit_conf_find_compat
  rw [holds.1,holds.2,compatible.1]
  dsimp only
  rw [read]
  rw [looped]
  cases last with
  | none => exact .inr ⟨rfl,kept⟩
  | some best =>
    refine .inl ⟨best.1,best.2,?_,kept⟩
    simp [stored,last_real best rfl]

/-! ## Configurations that suit -/

def Best (FIT_SIGNATURE_MAX_SIZE : Option ℕ) (device_tree : Data → Tree) (fit : Fit) (confs images : ℕ)
    (fdt_compat : List (List Char)) (c pos : ℕ) : Prop :=
  Picks (position (suits FIT_SIGNATURE_MAX_SIZE device_tree fit images) fdt_compat) (is_default fit confs)
    (configurations fit confs) c pos

/-- The best configuration is found, an error if there is none or if the FIT has no nodes
    for its configurations and images. -/
def Serves (FIT_SIGNATURE_MAX_SIZE : Option ℕ) (device_tree : Data → Tree) (fit : Fit) (fdt_compat : List (List Char))
    (found : Except ℤ ℕ) : Prop :=
  (∀ confs images, Holds fit confs images →
    (∃ c pos, found = .ok c ∧ Best FIT_SIGNATURE_MAX_SIZE device_tree fit confs images fdt_compat c pos) ∨
    found = .error (-ENOENT) ∧ ∀ c ∈ configurations fit confs, ∀ s ∈ fdt_compat,
      suits FIT_SIGNATURE_MAX_SIZE device_tree fit images c s = false) ∧
  ((∀ confs images, ¬ Holds fit confs images) → found = .error (-EINVAL))

/-- Where the code finds the empty string for a configuration, if it looks for nothing else. -/
def empty_position (FIT_SIGNATURE_MAX_SIZE : Option ℕ) (device_tree : Data → Tree) (fit : Fit) (images c : ℕ) : Option ℕ :=
  if suits FIT_SIGNATURE_MAX_SIZE device_tree fit images c [] ∨ trailing FIT_SIGNATURE_MAX_SIZE device_tree fit images c then
    some 0
  else none

/-- The configuration picked among those whose lists seem to have the empty string. -/
def EmptyFirst (FIT_SIGNATURE_MAX_SIZE : Option ℕ) (device_tree : Data → Tree) (fit : Fit) (confs images c : ℕ) : Prop :=
  Picks (empty_position FIT_SIGNATURE_MAX_SIZE device_tree fit images) (is_default fit confs) (configurations fit confs) c 0

/-- If one of U-Boot's strings is empty, a configuration has a string in front of it, or the
    configuration that is picked among those that seem to have the empty string is the best one. -/
def Harmless (FIT_SIGNATURE_MAX_SIZE : Option ℕ) (device_tree : Data → Tree) (fit : Fit) (fdt_compat : List (List Char)) :
    Prop :=
  ∀ confs images, Holds fit confs images → ∀ front back, fdt_compat = front ++ [] :: back → [] ∉ front →
    (∃ c ∈ configurations fit confs, ∃ s ∈ front, suits FIT_SIGNATURE_MAX_SIZE device_tree fit images c s) ∨
    ∀ c, EmptyFirst FIT_SIGNATURE_MAX_SIZE device_tree fit confs images c →
      ∃ pos, Best FIT_SIGNATURE_MAX_SIZE device_tree fit confs images fdt_compat c pos

theorem taken_exact {s : List Char} (free : NUL ∉ s) (full : s ≠ []) (c : ℕ) :
    taken FIT_SIGNATURE_MAX_SIZE device_tree fit images c s = suits FIT_SIGNATURE_MAX_SIZE device_tree fit images c s := by
  rw [Bool.eq_iff_iff,taken_iff _ _ _ _ _ free]
  simp [full]

variable {c pos : ℕ} {front rest strings : List (List Char)}

theorem position_congr {test test' : ℕ → List Char → Bool}
    (same : ∀ s ∈ strings, test c s = test' c s) : position test strings c = position test' strings c := by
  unfold position
  induction strings with
  | nil => rfl
  | cons s strings ih =>
    rw [findIdx?_cons,findIdx?_cons,same s mem_cons_self,
      ih fun t member => same t (mem_cons_of_mem s member)]

theorem position_append (test : ℕ → List Char → Bool) (front rest : List (List Char)) (c : ℕ) :
    position test (front ++ rest) c = (position test front c).or ((position test rest c).map (·+front.length)) :=
  findIdx?_append

theorem position_front {test : ℕ → List Char → Bool} (inside : pos < front.length) :
    position test (front ++ rest) c = some pos ↔ position test front c = some pos := by
  rw [position_append]
  cases position test front c with
  | some i => simp
  | none =>
    cases position test rest c with
    | none => simp
    | some i =>
      simp
      omega

theorem position_bound {test : ℕ → List Char → Bool}
    (found : position test strings c = some pos) : pos < strings.length := by
  unfold position at found
  rw [findIdx?_eq_some_iff_getElem] at found
  exact found.1

theorem position_none {test : ℕ → List Char → Bool} :
    position test strings c = none ↔ ∀ s ∈ strings, test c s = false :=
  findIdx?_eq_none_iff

theorem picks_front {test test' : ℕ → List Char → Bool} {preferred : ℕ → Bool}
    {confs : List ℕ} (same : ∀ c, position test front c = position test' front c)
    (some_front : ∃ c ∈ confs, ∃ i, position test front c = some i)
    (picks : Picks (position test (front ++ rest)) preferred confs c pos) :
    Picks (position test' (front ++ rest)) preferred confs c pos := by
  obtain ⟨first,first_member,i,first_at⟩ := some_front
  have bound := position_bound first_at
  have pos_small := picks.smallest first first_member i ((position_front bound).2 first_at)
  have inside : pos < front.length := by omega
  refine picks.transfer (fun other _ => ?_) (fun other member j at_j => ?_)
  · rw [position_front inside,position_front inside,same]
  · by_cases small : j < front.length
    · refine picks.smallest other member j ?_
      rwa [position_front small,same,← position_front small]
    · omega

theorem position_rest {test : ℕ → List Char → Bool}
    (none_front : position test front c = none) :
    position test (front ++ rest) c = (position test rest c).map (·+front.length) := by
  rw [position_append,none_front]
  rfl

theorem default_unique (a b : ℕ) (a_default : is_default fit confs a = true) (b_default : is_default fit confs b = true) :
    a = b :=
  Option.some.inj ((of_decide_eq_true a_default).trans (of_decide_eq_true b_default).symm)

theorem empty_taken (c : ℕ) : taken FIT_SIGNATURE_MAX_SIZE device_tree fit images c [] = true ↔
    empty_position FIT_SIGNATURE_MAX_SIZE device_tree fit images c = some 0 := by
  rw [taken_iff _ _ _ _ _ (not_mem_nil),empty_position]
  simp only [true_and]
  split
  next found => simp [found]
  next unfound => simp [unfound]

theorem empty_first_taken {front back : List (List Char)} (none_front : ∀ c ∈ configurations fit confs,
    position (taken FIT_SIGNATURE_MAX_SIZE device_tree fit images) front c = none) {c : ℕ} :
    EmptyFirst FIT_SIGNATURE_MAX_SIZE device_tree fit confs images c ↔
      Picks (position (taken FIT_SIGNATURE_MAX_SIZE device_tree fit images) (front ++ [] :: back)) (is_default fit confs)
        (configurations fit confs) c front.length := by
  have here : ∀ other ∈ configurations fit confs,
      (position (taken FIT_SIGNATURE_MAX_SIZE device_tree fit images) (front ++ [] :: back) other = some front.length ↔
        empty_position FIT_SIGNATURE_MAX_SIZE device_tree fit images other = some 0) := by
    intro other member
    rw [position_rest (none_front other member),← empty_taken,position,findIdx?_cons]
    by_cases found : taken FIT_SIGNATURE_MAX_SIZE device_tree fit images other []
    · simp [found]
    · simp [found]
      omega
  constructor
  · intro picks
    refine picks.transfer here fun other member i at_i => ?_
    rw [position_rest (none_front other member)] at at_i
    obtain ⟨j,-,rfl⟩ := map_eq_some_iff.1 at_i
    omega
  · intro picks
    exact picks.transfer (fun other member => (here other member).symm) fun other _ i _ => Nat.zero_le i

theorem picks_exact {test test' : ℕ → List Char → Bool} {preferred : ℕ → Bool} {confs : List ℕ} (same : ∀ c ∈ confs, ∀ s ∈ strings, test c s = test' c s)
    (picks : Picks (position test strings) preferred confs c pos) : Picks (position test' strings) preferred confs c pos := by
  refine picks.transfer (fun other member => ?_) fun other member i at_i => ?_
  · rw [position_congr (same other member)]
  · rw [← position_congr (same other member)] at at_i
    exact picks.smallest other member i at_i

section
variable {fdt : Tree} {fdt_compat : List (List Char)} (free : ∀ s ∈ fdt_compat, NUL ∉ s)
include free

theorem suits_taken (images c : ℕ) {s : List Char} (member : s ∈ fdt_compat)
    (suited : suits FIT_SIGNATURE_MAX_SIZE device_tree fit images c s) :
    taken FIT_SIGNATURE_MAX_SIZE device_tree fit images c s :=
  (taken_iff _ _ _ _ _ (free s member)).2 (.inl suited)

theorem front_exact (images : ℕ) {front back : List (List Char)} (split : fdt_compat = front ++ [] :: back)
    (full : [] ∉ front) (c : ℕ) : position (taken FIT_SIGNATURE_MAX_SIZE device_tree fit images) front c =
      position (suits FIT_SIGNATURE_MAX_SIZE device_tree fit images) front c :=
  position_congr fun s member => taken_exact (free s (by simp [split,member])) (fun empty => full (empty ▸ member)) c

theorem harmless_picked (holds : Holds fit confs images)
    (harmless : Harmless FIT_SIGNATURE_MAX_SIZE device_tree fit fdt_compat)
    (picks : Picks (position (taken FIT_SIGNATURE_MAX_SIZE device_tree fit images) fdt_compat) (is_default fit confs)
      (configurations fit confs) c pos) :
    ∃ pos, Best FIT_SIGNATURE_MAX_SIZE device_tree fit confs images fdt_compat c pos := by
  by_cases empty : [] ∈ fdt_compat
  · obtain ⟨front,back,split,full⟩ := eq_append_cons_of_mem empty
    by_cases some_front : ∃ c ∈ configurations fit confs, ∃ i,
        position (taken FIT_SIGNATURE_MAX_SIZE device_tree fit images) front c = some i
    · rw [split] at picks
      have picked := picks_front (front_exact free images split full) some_front picks
      rw [← split] at picked
      exact ⟨pos,picked⟩
    have none_front : ∀ c ∈ configurations fit confs,
        position (taken FIT_SIGNATURE_MAX_SIZE device_tree fit images) front c = none := by
      intro other member
      rw [eq_none_iff_forall_ne_some]
      exact fun i at_i => some_front ⟨other,member,i,at_i⟩
    by_cases some_empty : ∃ c ∈ configurations fit confs, taken FIT_SIGNATURE_MAX_SIZE device_tree fit images c []
    · -- the scan stops at the empty string
      obtain ⟨other,other_member,other_taken⟩ := some_empty
      have at_front : position (taken FIT_SIGNATURE_MAX_SIZE device_tree fit images) fdt_compat other = some front.length := by
        rw [split,position_rest (none_front other other_member),position,findIdx?_cons,if_pos other_taken]
        simp
      have small := picks.smallest other other_member front.length at_front
      have here := picks.here
      rw [split,position_rest (none_front c picks.member)] at here
      obtain ⟨i,-,pos_is⟩ := map_eq_some_iff.1 here
      have pos_front : pos = front.length := by omega
      rw [pos_front,split,← empty_first_taken none_front] at picks
      rcases harmless confs images holds front back split full with ⟨suited,member,s,s_member,suits_s⟩ | best
      · have unsuited := position_none.1 (none_front suited member) s s_member
        rw [suits_taken free images suited (by simp [split,s_member]) suits_s] at unsuited
        cases unsuited
      · exact best c picks
    · refine ⟨pos,picks_exact (fun other member s s_member => ?_) picks⟩
      by_cases full_s : s = []
      · have untaken : ¬ taken FIT_SIGNATURE_MAX_SIZE device_tree fit images other s :=
          fun found => some_empty ⟨other,member,full_s ▸ found⟩
        have unsuited : ¬ suits FIT_SIGNATURE_MAX_SIZE device_tree fit images other s :=
          fun found => untaken (suits_taken free images other s_member found)
        rw [Bool.eq_false_iff.2 untaken,Bool.eq_false_iff.2 unsuited]
      · exact taken_exact (free s s_member) full_s other
  · exact ⟨pos,picks_exact (fun other _ s s_member =>
      taken_exact (free s s_member) (fun full => empty (full ▸ s_member)) other) picks⟩

end

/-- The best configuration is found exactly where an empty string does no harm. -/
theorem find_compat_iff {fdt : Tree} {fdt_compat : List (List Char)} (compatible : Compatible fdt fdt_compat) :
    Serves FIT_SIGNATURE_MAX_SIZE device_tree fit fdt_compat
        (fit_conf_find_compat FIT_SIGNATURE_MAX_SIZE device_tree fit fdt) ↔
      Harmless FIT_SIGNATURE_MAX_SIZE device_tree fit fdt_compat := by
  have free := compatible.2
  constructor
  · rintro ⟨serves,-⟩ confs images holds front back split full
    by_cases some_front : ∃ c ∈ configurations fit confs, ∃ s ∈ front, suits FIT_SIGNATURE_MAX_SIZE device_tree fit images c s
    · exact .inl some_front
    refine .inr fun c first => ?_
    have none_front : ∀ c ∈ configurations fit confs,
        position (taken FIT_SIGNATURE_MAX_SIZE device_tree fit images) front c = none := by
      intro c member
      rw [front_exact free images split full,position_none]
      intro s s_member
      exact Bool.eq_false_iff.2 fun suited => some_front ⟨c,member,s,s_member,suited⟩
    rw [@empty_first_taken _ _ _ _ _ front back none_front,← split] at first
    rcases find_compat_spec holds compatible with ⟨c',pos,found,picks⟩ | ⟨-,none_found⟩
    · obtain ⟨same,-⟩ := picks.unique (fun a _ b _ => default_unique a b) first
      rcases serves confs images holds with ⟨best,best_pos,served,picked⟩ | ⟨failed,-⟩
      · rw [found] at served
        rw [← same,Except.ok.inj served]
        exact ⟨best_pos,picked⟩
      · rw [found] at failed
        cases failed
    · have missing := none_found c first.member
      rw [first.here] at missing
      cases missing
  · intro harmless
    refine ⟨fun confs images holds => ?_,fun missing => ?_⟩
    · rcases find_compat_spec holds compatible with ⟨c,pos,found,picks⟩ | ⟨failed,none_found⟩
      · obtain ⟨best_pos,best⟩ := harmless_picked free holds harmless picks
        exact .inl ⟨c,best_pos,found,best⟩
      · refine .inr ⟨failed,fun c member s s_member => Bool.eq_false_iff.2 fun suited => ?_⟩
        have untaken := position_none.1 (none_found c member) s s_member
        rw [suits_taken free images c s_member suited] at untaken
        cases untaken
    · unfold fit_conf_find_compat
      cases confs_at : fdt_subnode_offset fit.tree.tags 0 confs_name with
      | none => rfl
      | some confs =>
        cases images_at : fdt_subnode_offset fit.tree.tags 0 images_name with
        | none => rfl
        | some images => exact absurd ⟨confs_at,images_at⟩ (missing confs images)

end

/-! ## Examples -/

/-- A tree whose root has some strings as its `compatible` property. -/
def board (fdt_compat : List (List Char)) : Tree where
  tags := [.begin_node [],.prop FIT_COMPAT_PROP (fdt_compat.flatMap (· ++ [NUL])),.end_node,.fdt_end]
  behind _ := NUL

/-- A FIT with some configurations and one image, the device tree `fdt-1`. -/
def fit_with (default_name : List Char) (confs : List Tag) : Fit where
  tree.tags := [.begin_node [],.begin_node images_name,.begin_node "fdt-1".toList,.prop FIT_COMP_PROP "none".toList,
      .prop FIT_DATA_PROP ['d'],.end_node,.end_node,.begin_node confs_name,.prop FIT_DEFAULT_PROP default_name] ++
    confs ++ [.end_node,.end_node,.fdt_end]
  tree.behind _ := NUL
  totalsize := 4096
  address := 0

/-- A configuration with its own `compatible` property, and one with a device tree. -/
def plain_conf (name compatible : String) : List Tag :=
  [.begin_node name.toList,.prop FIT_COMPAT_PROP (compatible.toList ++ [NUL]),.end_node]
def tree_conf (name : String) : List Tag :=
  [.begin_node name.toList,.prop FIT_FDT_PROP "fdt-1".toList,.end_node]

/-- The second and the third configuration are at the first string; the third is the default. -/
theorem default_picked :
    let fdt_compat := ["foo,bar".toList,"bim,bam".toList]
    let fit := fit_with "conf-3".toList (plain_conf "conf-1" "bim,bam" ++ plain_conf "conf-2" "foo,bar" ++ tree_conf "conf-3")
    let found := fit_conf_find_compat none (fun _ => board ["foo,bar".toList]) fit (board fdt_compat)
    found = .ok 15 ∧ Serves none (fun _ => board ["foo,bar".toList]) fit fdt_compat found := by
  refine ⟨by decide +kernel,(find_compat_iff ⟨by decide +kernel,by decide +kernel⟩).2 ?_⟩
  intro confs images _ front back split
  have empty : [] ∈ ["foo,bar".toList,"bim,bam".toList] := by
    rw [split]
    simp
  exact absurd empty (by decide +kernel)

/-- A configuration without the empty string is found for it. -/
theorem empty_string_found :
    let fit := fit_with "conf-1".toList (plain_conf "conf-1" "foo,bar")
    let found := fit_conf_find_compat none (fun _ => board []) fit (board [[]])
    Compatible (board [[]]) [[]] ∧ Holds fit 7 1 ∧ found = .ok 9 ∧ suits none (fun _ => board []) fit 1 9 [] = false ∧
      ¬ Serves none (fun _ => board []) fit [[]] found := by
  intro fit found
  have holds : Holds fit 7 1 := ⟨by decide +kernel,by decide +kernel⟩
  have found_is : found = .ok 9 := by decide +kernel
  have unsuited : suits none (fun _ => board []) fit 1 9 [] = false := by decide +kernel
  refine ⟨⟨by decide +kernel,by decide +kernel⟩,holds,found_is,unsuited,?_⟩
  rintro ⟨serves,-⟩
  rw [found_is] at serves
  rcases serves 7 1 holds with ⟨c,pos,served,best⟩ | ⟨failed,-⟩
  · obtain rfl := Except.ok.inj served
    have here := best.here
    rw [position_none.2 (by simpa using unsuited)] at here
    cases here
  · cases failed

end UBoot.FitConfigCompat
