import UBoot.FdtRegion

/-!
What the signature of a FIT configuration covers, `boot/image-fit-sig.c`:
`fit_config_get_signed_nodes` lists the paths of the configuration, of its images and of their hash,
cipher and dm-verity nodes, and `fit_config_check_sig` hashes the regions that `fdt_find_regions`
gives for them. Nodes may be missing where names have slashes, and where a list of images is not
terminated.
-/
namespace UBoot.FitConfigSig
open UBoot.Fdt UBoot.FdtRegion List Option

def ENOENT : ℤ := 2
def ENOSPC : ℤ := 28
def ENOMSG : ℤ := 42

def IMAGE_MAX_HASHED_NODES : ℕ := 100
def FIT_MAX_HASH_PATH_BUF : ℕ := 4096

/-- The names in `FIT_IMAGES_PATH` and `FIT_CONFS_PATH`. -/
def images_name : List Char := "images".toList
def confs_name : List Char := "configurations".toList
def FIT_CONFS_PATH : List Char := "/configurations".toList
def FIT_HASH_NODENAME : List Char := "hash".toList
def FIT_CIPHER_NODENAME : List Char := "cipher".toList
def FIT_VERITY_NODENAME : List Char := "dm-verity".toList
def FIT_DESC_PROP : List Char := "description".toList
def FIT_COMPAT_PROP : List Char := "compatible".toList
def FIT_DEFAULT_PROP : List Char := "default".toList
def FIT_TIMESTAMP_PROP : List Char := "timestamp".toList
def FIT_VALUE_PROP : List Char := "value".toList

structure Fit where
  tags : Blob
  off_dt_struct : ℕ
  off_dt_strings : ℕ
  size_dt_strings : ℕ

/-- `fdt_check_no_at`, from a node on, with so many levels left. -/
def fdt_check_no_at (fit : Blob) : ℕ → ℕ → Bool
  | 0, _ => false
  | levels+1, parent =>
    match fdt_get_name fit parent with
    | none => false
    | some name => '@' ∉ name ∧ (subnodes fit parent).all fun (node,_) => fdt_check_no_at fit levels node

/-- `fit_check_format` with the full check and signatures, for a build that may ask for a
    timestamp. -/
def fit_check_format (timestamp : Bool) (fit : Blob) : Bool :=
  fdt_check_full fit ∧ fdt_check_no_at fit FDT_MAX_DEPTH 0 ∧ (fdt_getprop fit 0 FIT_DESC_PROP).isSome ∧
    (timestamp → (fdt_getprop fit 0 FIT_TIMESTAMP_PROP).isSome) ∧ (fdt_subnode_offset fit 0 images_name).isSome

def fit_image_get_node (fit : Blob) (image_uname : List Char) : Option ℕ :=
  (fdt_subnode_offset fit 0 images_name).bind fun images_noffset => fdt_subnode_offset fit images_noffset image_uname

def fit_conf_get_prop_node_index (fit : Blob) (noffset : ℕ) (prop_name : List Char) (index : ℕ) : Option ℕ :=
  (fdt_stringlist_get fit noffset prop_name index).bind (fit_image_get_node fit)

/-- `node_inc` and the bytes used in the buffer of the paths. -/
structure NodeList where
  node_inc : List (List Char)
  used : ℕ

def fit_config_add_node (fit : Blob) (noffset : ℕ) (nodes : NodeList) : Except ℤ NodeList :=
  if IMAGE_MAX_HASHED_NODES ≤ nodes.node_inc.length then .error (-ENOSPC)
  else
    match fdt_get_path fit noffset (FIT_MAX_HASH_PATH_BUF-nodes.used) with
    | none => .error (-ENOENT)
    | some path => .ok ⟨nodes.node_inc ++ [path],nodes.used+(path.length+1)⟩

def add_nodes (fit : Blob) : List ℕ → NodeList → Except ℤ NodeList
  | [], nodes => .ok nodes
  | noffset :: rest, nodes =>
    match fit_config_add_node fit noffset nodes with
    | .error ret => .error ret
    | .ok nodes => add_nodes fit rest nodes

def hash_nodes (fit : Blob) (image_noffset : ℕ) : List ℕ :=
  ((subnodes fit image_noffset).filter fun (_,name) => FIT_HASH_NODENAME <+: name).map (·.1)

/-- The nodes that `fit_config_add_hash` adds behind the hash nodes. -/
def other_nodes (fit : Blob) (image_noffset : ℕ) : List ℕ :=
  (fdt_subnode_offset fit image_noffset FIT_CIPHER_NODENAME).toList ++
    (fdt_subnode_offset fit image_noffset FIT_VERITY_NODENAME).toList

def fit_config_add_hash (fit : Blob) (image_noffset : ℕ) (nodes : NodeList) : Except ℤ NodeList :=
  match add_nodes fit (image_noffset :: hash_nodes fit image_noffset) nodes with
  | .error ret => .error ret
  | .ok nodes =>
    if hash_nodes fit image_noffset = [] then .error (-ENOMSG) else add_nodes fit (other_nodes fit image_noffset) nodes

def skipped_props : List (List Char) := [FIT_DESC_PROP,FIT_COMPAT_PROP,FIT_DEFAULT_PROP]

local instance names_lawful : LawfulBEq (List Char) := inferInstance

/-- The image references of a configuration: a property and an index in it. A property
    whose strings cannot be counted has none. -/
def image_references (fit : Blob) (conf_noffset : ℕ) : List (List Char × ℕ) :=
  (properties fit conf_noffset).flatMap fun (prop_name,_) =>
    if prop_name ∈ skipped_props then []
    else (List.range ((fdt_stringlist_count fit conf_noffset prop_name).getD 0)).map fun i => (prop_name,i)

/-- The loop of `fit_config_get_signed_nodes` over the references, which counts images. -/
def add_images (fit : Blob) (conf_noffset : ℕ) : List (List Char × ℕ) → NodeList → ℕ → Except ℤ (NodeList × ℕ)
  | [], nodes, image_count => .ok (nodes,image_count)
  | (prop_name,i) :: rest, nodes, image_count =>
    match fit_conf_get_prop_node_index fit conf_noffset prop_name i with
    | none => add_images fit conf_noffset rest nodes image_count
    | some noffset =>
      match fit_config_add_hash fit noffset nodes with
      | .error ret => .error ret
      | .ok nodes => add_images fit conf_noffset rest nodes (image_count+1)

def conf_path (conf_name : List Char) : List Char := FIT_CONFS_PATH ++ ['/'] ++ conf_name

def fit_config_get_signed_nodes (fit : Blob) (conf_noffset : ℕ) : Except ℤ (List (List Char)) :=
  let path := conf_path ((fdt_get_name fit conf_noffset).getD [])
  if FIT_MAX_HASH_PATH_BUF < 2+(path.length+1) then .error (-ENOSPC)
  else
    match add_images fit conf_noffset (image_references fit conf_noffset) ⟨[['/'],path],2+(path.length+1)⟩ 0 with
    | .error ret => .error ret
    | .ok (nodes,image_count) => if image_count = 0 then .error (-ENOMSG) else .ok nodes.node_inc

def exc_prop : List (List Char) := ["data".toList,"data-size".toList,"data-position".toList,"data-offset".toList]

/-- `fdt32_to_cpu` of a cell. -/
def fdt32 (cell : List Char) : ℕ := (cell.take 4).foldl (fun value c => 256*value+c.toNat) 0

/-- `fit_config_check_sig` up to the call of the crypto functions: the regions that are
    verified, or what goes wrong before. `fit_image_setup_verify` is an argument. -/
def fit_config_check_sig (fit_image_setup_verify : Fit → ℕ → Except String Unit) (fit : Fit) (noffset conf_noffset : ℕ) :
    Except String (List Region) :=
  match fit_image_setup_verify fit noffset with
  | .error err_msg => .error err_msg
  | .ok () =>
    match fdt_getprop fit.tags noffset FIT_VALUE_PROP with
    | none => .error "Can't get hash value property"
    | some _ =>
      match fit_config_get_signed_nodes fit.tags conf_noffset with
      | .error _ => .error "Failed to build hash node list"
      | .ok node_inc =>
        let max_regions := 20+node_inc.length*7
        match fdt_find_regions ⟨node_inc,exc_prop,fit.off_dt_struct,max_regions-1,200⟩ fit.tags with
        | none => .error "Failed to hash configuration"
        | some fdt_regions =>
          if fdt_regions.length = 0 then .error "No data to hash"
          else if max_regions-1 ≤ fdt_regions.length then .error "Too many hash regions"
          else
            match fdt_getprop fit.tags noffset "hashed-strings".toList with
            | none => .ok fdt_regions
            | some strings =>
              if strings.length < 2*4 then .error "Invalid hashed-strings property"
              else if fit.size_dt_strings < fdt32 (strings.drop 4) then .error "Strings region is out of bounds"
              else .ok (fdt_regions ++ [⟨fit.off_dt_strings,fdt32 (strings.drop 4)⟩])

/-! ## The list of nodes -/

def Listed (fit : Blob) (node_inc : List (List Char)) (node : ℕ) : Prop :=
  ∃ buflen path, fdt_get_path fit node buflen = some path ∧ path ∈ node_inc

variable {conf image index levels node parent : ℕ} {name prop_name : List Char}
    {regions : List Region}

theorem Listed.mono {fit : Blob} {before after : List (List Char)} (more : before ⊆ after)
    (listed : Listed fit before node) : Listed fit after node := by
  obtain ⟨buflen,path,found,member⟩ := listed
  exact ⟨buflen,path,found,more member⟩

/-- What was in the list stays there, and some nodes are listed. -/
def Adds (fit : Blob) (added : List ℕ) (before after : NodeList) : Prop :=
  before.node_inc ⊆ after.node_inc ∧ ∀ node ∈ added, Listed fit after.node_inc node

theorem Adds.trans {fit : Blob} {first second : List ℕ} {before between after : NodeList} (one : Adds fit first before between)
    (two : Adds fit second between after) : Adds fit (first ++ second) before after := by
  refine ⟨List.Subset.trans one.1 two.1,?_⟩
  intro node member
  rcases mem_append.mp member with early | late
  · exact (one.2 node early).mono two.1
  · exact two.2 node late

variable {fit : Blob} {nodes nodes' : NodeList}

theorem add_node_adds {noffset : ℕ} (added : fit_config_add_node fit noffset nodes = .ok nodes') : Adds fit [noffset] nodes nodes' := by
  unfold fit_config_add_node at added
  split at added
  · cases added
  · split at added
    · cases added
    · next path found =>
      cases added
      refine ⟨subset_append_left _ _,?_⟩
      intro node member
      rw [mem_singleton.mp member]
      exact ⟨_,path,found,mem_append_right _ (mem_singleton.mpr rfl)⟩

theorem add_nodes_adds {added : List ℕ} (done : add_nodes fit added nodes = .ok nodes') : Adds fit added nodes nodes' := by
  induction added generalizing nodes with
  | nil =>
    cases done
    exact ⟨List.Subset.refl _,by simp⟩
  | cons noffset rest ih =>
    rw [add_nodes] at done
    split at done
    · cases done
    · next between first => exact (add_node_adds first).trans (ih done)

theorem add_hash_adds (done : fit_config_add_hash fit image nodes = .ok nodes') :
    Adds fit (image :: hash_nodes fit image ++ other_nodes fit image) nodes nodes' := by
  unfold fit_config_add_hash at done
  split at done
  · cases done
  · next between first =>
    split at done
    · cases done
    · exact (add_nodes_adds first).trans (add_nodes_adds done)

theorem add_images_adds {references : List (List Char × ℕ)} {image_count total : ℕ}
    (done : add_images fit conf references nodes image_count = .ok (nodes',total)) :
    nodes.node_inc ⊆ nodes'.node_inc ∧ ∀ prop_name i image, (prop_name,i) ∈ references →
      fit_conf_get_prop_node_index fit conf prop_name i = some image →
      ∀ node ∈ image :: hash_nodes fit image ++ other_nodes fit image, Listed fit nodes'.node_inc node := by
  induction references generalizing nodes image_count with
  | nil =>
    cases done
    exact ⟨List.Subset.refl _,by simp⟩
  | cons reference rest ih =>
    obtain ⟨first_name,first_index⟩ := reference
    rw [add_images] at done
    split at done
    · next unresolved =>
      obtain ⟨kept,later⟩ := ih done
      refine ⟨kept,?_⟩
      intro prop_name i image member resolved
      rcases mem_cons.mp member with here | found
      · obtain ⟨rfl,rfl⟩ := Prod.mk.inj here
        rw [unresolved] at resolved
        cases resolved
      · exact later prop_name i image found resolved
    · next noffset first_resolved =>
      split at done
      · cases done
      · next between added =>
        have adds := add_hash_adds added
        obtain ⟨kept,later⟩ := ih done
        refine ⟨List.Subset.trans adds.1 kept,?_⟩
        intro prop_name i image member resolved
        rcases mem_cons.mp member with here | found
        · obtain ⟨rfl,rfl⟩ := Prod.mk.inj here
          obtain rfl := Option.some.inj (first_resolved.symm.trans resolved)
          intro node node_member
          exact (adds.2 node node_member).mono kept
        · exact later prop_name i image found resolved

/-! ## Lookups -/

theorem subnode_offset_member (found : fdt_subnode_offset fit parent name = some node) :
    ∃ full, (node,full) ∈ subnodes fit parent ∧ fdt_nodename_eq full name := by
  obtain ⟨⟨place,full⟩,first,rfl⟩ := map_eq_some_iff.mp found
  have matching := find?_some first
  exact ⟨full,mem_of_find?_eq_some first,of_decide_eq_true matching⟩

theorem subnode_offset_first (member : (node,name) ∈ subnodes fit parent) :
    ∃ first, fdt_subnode_offset fit parent name = some first := by
  have exact_name : fdt_nodename_eq name name := ⟨prefix_rfl,.inl (by simp)⟩
  cases search : (subnodes fit parent).find? (fdt_nodename_eq ·.2 name) with
  | none =>
    have refused := find?_eq_none.mp search (node,name) member
    simp [exact_name] at refused
  | some first =>
    exact ⟨first.1,by rw [fdt_subnode_offset,search]; rfl⟩

theorem nodename_exact {full name : List Char} (eq : fdt_nodename_eq full name) (plain : '@' ∉ full) : full = name := by
  obtain ⟨⟨rest,rfl⟩,ends⟩ := eq
  rw [drop_left] at ends
  rcases ends with empty | ⟨_,unit⟩
  · rw [empty,append_nil]
  · refine absurd ?_ plain
    exact mem_append_right _ (mem_of_head? unit)

theorem no_at_subnode (plain : fdt_check_no_at fit (levels+2) parent)
    (member : (node,name) ∈ subnodes fit parent) : fdt_check_no_at fit (levels+1) node ∧ '@' ∉ name := by
  rw [fdt_check_no_at] at plain
  split at plain
  · cases plain
  · have all := (of_decide_eq_true plain).2
    rw [List.all_eq_true] at all
    have inside : fdt_check_no_at fit (levels+1) node := all (node,name) member
    refine ⟨inside,?_⟩
    rw [fdt_check_no_at,(subnode_at member).1] at inside
    exact (of_decide_eq_true inside).1

theorem root_names (checked : fdt_check_full fit) (member : (node,name) ∈ subnodes fit 0) :
    names_at fit 0 = [[]] := by
  unfold subnodes at member
  split at member
  · next root named =>
    have at_root := fdt_get_name_eq named
    rw [names_at,take_node at_root]
    cases fit with
    | nil => simp at at_root
    | cons tag rest =>
      obtain rfl : tag = .begin_node root := by simpa using at_root
      rw [fdt_check_full,check_full_from.eq_def] at checked
      have empty := (of_decide_eq_true checked).1 rfl
      rw [empty]
      rfl
  · simp at member

/-! ## Coverage -/

/-- The nodes that a configuration boots: itself, the images it refers to, and what belongs
    to them. -/
inductive Booted (fit : Blob) (conf : ℕ) : ℕ → Prop
  | conf : Booted fit conf conf
  | image {prop_name : List Char} {index image : ℕ} : prop_name ∉ skipped_props →
      fit_conf_get_prop_node_index fit conf prop_name index = some image → Booted fit conf image
  | part {prop_name : List Char} {index image node : ℕ} {name : List Char} : prop_name ∉ skipped_props →
      fit_conf_get_prop_node_index fit conf prop_name index = some image → (node,name) ∈ subnodes fit image →
      FIT_HASH_NODENAME <+: name ∨ name = FIT_CIPHER_NODENAME ∨ name = FIT_VERITY_NODENAME → Booted fit conf node

/-- A property from which a string can be taken can be counted. -/
def Terminated (fit : Blob) (conf : ℕ) : Prop :=
  ∀ prop_name, prop_name ∉ skipped_props → (fdt_stringlist_get fit conf prop_name 0).isSome →
    (fdt_stringlist_count fit conf prop_name).isSome

theorem reference_member (terminated : Terminated fit conf)
    (kept : prop_name ∉ skipped_props) (resolved : fit_conf_get_prop_node_index fit conf prop_name index = some image) :
    (prop_name,index) ∈ image_references fit conf := by
  obtain ⟨uname,string,_⟩ := bind_eq_some_iff.mp resolved
  have countable := terminated prop_name kept
  unfold fdt_stringlist_get at string countable
  unfold fdt_stringlist_count at countable
  cases value : fdt_getprop fit conf prop_name with
  | none =>
    rw [value] at string
    cases string
  | some list =>
    rw [value] at string countable
    dsimp only at string countable
    have inside : index < (stringlist list).1.length := (List.getElem?_eq_some_iff.mp string).1
    have first : (stringlist list).1[0]?.isSome := by
      rw [getElem?_eq_getElem (by omega)]
      rfl
    have ended : (stringlist list).2 = [] := by
      by_contra open_end
      have counted := countable first
      rw [if_neg open_end] at counted
      cases counted
    have count : fdt_stringlist_count fit conf prop_name = some (stringlist list).1.length := by
      unfold fdt_stringlist_count
      rw [value]
      exact if_pos ended
    obtain ⟨⟨same_name,_⟩,search,_⟩ := map_eq_some_iff.mp value
    obtain rfl : same_name = prop_name := by simpa using find?_some search
    refine mem_flatMap.mpr ⟨_,mem_of_find?_eq_some search,?_⟩
    dsimp only
    rw [if_neg kept,count]
    exact List.mem_map.mpr ⟨index,mem_range.mpr inside,rfl⟩

theorem image_names (checked : fdt_check_full fit)
    (resolved : fit_conf_get_prop_node_index fit conf prop_name index = some image) :
    ∃ name top, top ≠ [] ∧ fdt_get_name fit image = some name ∧ names_at fit image = [name] ++ [top,[]] := by
  obtain ⟨uname,_,node⟩ := bind_eq_some_iff.mp resolved
  obtain ⟨images,parent,found⟩ := bind_eq_some_iff.mp node
  obtain ⟨top,top_member,top_eq⟩ := subnode_offset_member parent
  obtain ⟨name,member,_⟩ := subnode_offset_member found
  refine ⟨name,top,?_,(subnode_at member).1,?_⟩
  · rintro rfl
    have empty := prefix_nil.mp top_eq.1
    revert empty
    decide
  · rw [(subnode_at member).2,(subnode_at top_member).2,root_names checked top_member]
    rfl

theorem listed_covered {request : Request} (found : fdt_find_regions request fit = some regions) {name top : List Char} {inner : List (List Char)} (named : fdt_get_name fit node = some name)
    (names : names_at fit node = inner ++ [top,[]]) (nonempty : top ≠ []) (slashless : ClosedSlashless fit node) {other : ℕ}
    {other_name : List Char} (other_named : fdt_get_name fit other = some other_name) (same : names_at fit other = names_at fit node)
    (other_slashless : ClosedSlashless fit other) (listed : Listed fit request.inc other) :
    NodeCovered request.base request.exc_prop fit regions node := by
  obtain ⟨buflen,path,path_is,member⟩ := listed
  refine node_path_covered found named slashless ?_
  have text := get_path_open other_named other_slashless path_is
  rw [same,names,← rendered_text nonempty] at text
  rw [names,← text]
  exact member

theorem nodeCovered_mono {base : ℕ} {excluded : List (List Char)} {regions more : List Region} (subset : regions ⊆ more)
    (covered : NodeCovered base excluded fit regions node) : NodeCovered base excluded fit more node := by
  have tag {place : ℕ} (inside : TagCovered base fit regions place) : TagCovered base fit more place := by
    intro x low high
    obtain ⟨r,member,bounds⟩ := inside x low high
    exact ⟨r,subset member,bounds⟩
  refine ⟨tag covered.1,?_⟩
  intro place name member kept
  exact tag (covered.2 place name member kept)

theorem check_sig_regions {setup : Fit → ℕ → Except String Unit} {blob : Fit} {noffset conf : ℕ}
    (reached : fit_config_check_sig setup blob noffset conf = .ok regions) :
    ∃ node_inc fdt_regions, fit_config_get_signed_nodes blob.tags conf = .ok node_inc ∧
      fdt_find_regions ⟨node_inc,exc_prop,blob.off_dt_struct,20+node_inc.length*7-1,200⟩ blob.tags = some fdt_regions ∧
      fdt_regions ⊆ regions := by
  unfold fit_config_check_sig at reached
  split at reached
  · cases reached
  split at reached
  · cases reached
  split at reached
  · cases reached
  next node_inc signed =>
  dsimp only at reached
  split at reached
  · cases reached
  next fdt_regions found =>
  refine ⟨node_inc,fdt_regions,signed,found,?_⟩
  split at reached
  · cases reached
  · split at reached
    · cases reached
    · split at reached
      · cases reached
        exact List.Subset.refl _
      · split at reached
        · cases reached
        · split at reached
          · cases reached
          · cases reached
            exact subset_append_left _ _

theorem signed_nodes_listed {conf_name : List Char} {node_inc : List (List Char)}
    (named : fdt_get_name fit conf = some conf_name) (signed : fit_config_get_signed_nodes fit conf = .ok node_inc) :
    conf_path conf_name ∈ node_inc ∧ ∀ prop_name i image, (prop_name,i) ∈ image_references fit conf →
      fit_conf_get_prop_node_index fit conf prop_name i = some image →
      ∀ node ∈ image :: hash_nodes fit image ++ other_nodes fit image, Listed fit node_inc node := by
  unfold fit_config_get_signed_nodes at signed
  rw [named] at signed
  dsimp only [Option.getD] at signed
  split at signed
  · cases signed
  · split at signed
    · cases signed
    · next nodes image_count added =>
      split at signed
      · cases signed
      · cases signed
        obtain ⟨kept,listed⟩ := add_images_adds added
        exact ⟨kept (by simp),listed⟩

theorem part_node (plain : fdt_check_no_at fit (levels+2) image)
    (member : (node,name) ∈ subnodes fit image)
    (signed : FIT_HASH_NODENAME <+: name ∨ name = FIT_CIPHER_NODENAME ∨ name = FIT_VERITY_NODENAME) :
    ∃ first, first ∈ hash_nodes fit image ++ other_nodes fit image ∧ (first,name) ∈ subnodes fit image := by
  have lookup (found : name = FIT_CIPHER_NODENAME ∨ name = FIT_VERITY_NODENAME) :
      ∃ first, first ∈ other_nodes fit image ∧ (first,name) ∈ subnodes fit image := by
    obtain ⟨first,is⟩ := subnode_offset_first member
    obtain ⟨full,first_member,eq⟩ := subnode_offset_member is
    obtain rfl := nodename_exact eq (no_at_subnode plain first_member).2
    refine ⟨first,?_,first_member⟩
    rw [other_nodes,mem_append]
    rcases found with rfl | rfl
    · rw [is]
      exact .inl (mem_singleton.mpr rfl)
    · rw [is]
      exact .inr (mem_singleton.mpr rfl)
  rcases signed with hash | other
  · refine ⟨node,mem_append_left _ ?_,member⟩
    refine List.mem_map.mpr ⟨(node,name),mem_filter.mpr ⟨member,?_⟩,rfl⟩
    exact decide_eq_true hash
  · obtain ⟨first,listed,first_member⟩ := lookup other
    exact ⟨first,mem_append_right _ listed,first_member⟩

theorem no_at_image (plain : fdt_check_no_at fit (levels+3) 0)
    (resolved : fit_conf_get_prop_node_index fit conf prop_name index = some image) : fdt_check_no_at fit (levels+1) image := by
  obtain ⟨uname,_,node⟩ := bind_eq_some_iff.mp resolved
  obtain ⟨images,parent,found⟩ := bind_eq_some_iff.mp node
  obtain ⟨top,top_member,_⟩ := subnode_offset_member parent
  obtain ⟨name,member,_⟩ := subnode_offset_member found
  exact (no_at_subnode (no_at_subnode plain top_member).1 member).1

theorem closed_names_begun {names : List (List Char)} {tags : List Tag} (closed : name ∈ closed_names names tags) :
    name ∈ names ∨ .begin_node name ∈ tags := by
  induction tags generalizing names with
  | nil =>
    rw [closed_names.eq_def] at closed
    simp at closed
  | cons tag tags ih =>
    have later {names' : List (List Char)} (found : name ∈ closed_names names' tags) (origin : name ∈ names' → name ∈ names ∨ .begin_node name = tag) :
        name ∈ names ∨ .begin_node name ∈ tag :: tags := by
      rcases ih found with before | begun
      · rcases origin before with old | first
        · exact .inl old
        · exact .inr (by rw [first]; exact mem_cons_self)
      · exact .inr (mem_cons_of_mem tag begun)
    cases tag with
    | begin_node first =>
      refine @later (first :: names) closed ?_
      intro member
      rcases mem_cons.mp member with rfl | old
      · exact .inr rfl
      · exact .inl old
    | end_node =>
      cases names with
      | nil => exact later closed .inl
      | cons inner names =>
        rcases mem_cons.mp closed with rfl | found
        · exact .inl mem_cons_self
        · exact later found (fun old => .inl (mem_cons_of_mem inner old))
    | prop property value | nop | fdt_end =>
      cases names <;> exact later closed .inl

def slash_free : Tag → Bool
  | .begin_node name => '/' ∉ name
  | _ => true

theorem slashless_names (names : fit.all slash_free) (node : ℕ) : ClosedSlashless fit node := by
  intro name closed
  rcases closed_names_begun closed with impossible | begun
  · simp at impossible
  · have free := List.all_eq_true.mp names _ (mem_of_mem_take begun)
    exact of_decide_eq_true free

def terminated_text (text : String) : List Char := text.toList ++ [NUL]

def root_tags (inside : List Tag) : Blob :=
  [.begin_node [],.prop FIT_DESC_PROP (terminated_text "FIT")] ++ inside ++ [.end_node,.fdt_end]

def image_tags (name : String) : List Tag := [.begin_node name.toList,.begin_node "hash-1".toList,.end_node,.end_node]

def signature_tags : List Tag := [.begin_node "signature-1".toList,.prop FIT_VALUE_PROP ['s'],.end_node]

/-- A configuration with a kernel, behind other configurations. -/
def kernel_fit (others : List Tag) : Fit where
  tags := root_tags ([.begin_node images_name] ++ image_tags "kernel" ++ [.end_node,.begin_node confs_name] ++ others ++
    [.begin_node "conf-1".toList,.prop "kernel".toList (terminated_text "kernel")] ++ signature_tags ++ [.end_node,.end_node])
  off_dt_struct := 56
  off_dt_strings := 400
  size_dt_strings := 24

def plain_fit : Fit := kernel_fit []

def slash_fit : Fit := kernel_fit [.begin_node "x/y".toList,.end_node]

def unterminated_fit : Fit where
  tags := root_tags ([.begin_node images_name] ++ image_tags "kernel" ++ image_tags "fdt" ++ [.end_node,.begin_node confs_name,
    .begin_node "conf-1".toList,.prop "kernel".toList (terminated_text "kernel" ++ ['x']),
    .prop "fdt".toList (terminated_text "fdt")] ++ signature_tags ++ [.end_node,.end_node])
  off_dt_struct := 56
  off_dt_strings := 400
  size_dt_strings := 24

def ready (_ : Fit) (_ : ℕ) : Except String Unit := .ok ()

theorem not_covered {base node : ℕ} {excluded : List (List Char)}
    (outside : regions.all fun r => base+offset_of fit node < r.offset ∨ r.offset+r.size ≤ base+offset_of fit node)
    (positive : offset_of fit node < offset_of fit (node+1)) : ¬ NodeCovered base excluded fit regions node := by
  rintro ⟨covered,_⟩
  obtain ⟨r,member,low,high⟩ := covered _ le_rfl positive
  have apart := of_decide_eq_true (List.all_eq_true.mp outside r member)
  omega

end UBoot.FitConfigSig
