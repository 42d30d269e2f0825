import Mathlib.Data.List.Basic
import Mathlib.Data.List.TakeWhile
import Mathlib.Tactic.Ring

/-!
Flattened device trees, `scripts/dtc/libfdt`: the structure block is its list of tags, and a node is
the place of its tag in the list. Lookups return the first match. `fdt_get_path` takes its path back
to the last slash for each node that is closed.
-/
namespace UBoot.Fdt
open List

/-- The tags, with the names as `fdt_get_name` and `fdt_string` return them. -/
inductive Tag where
  | begin_node (name : List Char)
  | end_node
  | prop (name value : List Char)
  | nop
  | fdt_end
deriving DecidableEq

def FDT_TAGALIGN (x : ℕ) : ℕ := (x+3)/4*4

/-- The bytes up to the next tag, as `fdt_next_tag` finds it. -/
def Tag.size : Tag → ℕ
  | .begin_node name => FDT_TAGALIGN (4+name.length+1)
  | .prop _ value => FDT_TAGALIGN (12+value.length)
  | _ => 4

abbrev Blob := List Tag

def offset_of (fdt : Blob) (place : ℕ) : ℕ := ((fdt.take place).map Tag.size).sum

def fdt_get_name (fdt : Blob) (node : ℕ) : Option (List Char) :=
  match fdt[node]? with
  | some (.begin_node name) => some name
  | _ => none

def properties_from : List Tag → List (List Char × List Char)
  | .prop name value :: rest => (name,value) :: properties_from rest
  | .nop :: rest => properties_from rest
  | _ => []

/-- The properties that `fdt_for_each_property_offset` visits. -/
def properties (fdt : Blob) (node : ℕ) : List (List Char × List Char) :=
  match fdt_get_name fdt node with
  | some _ => properties_from (fdt.drop (node+1))
  | none => []

def fdt_getprop (fdt : Blob) (node : ℕ) (name : List Char) : Option (List Char) :=
  ((properties fdt node).find? (·.1 = name)).map (·.2)

/-- The subnodes from a place on, where nodes stand open inside the parent. -/
def subnodes_from : ℕ → ℕ → List Tag → List (ℕ × List Char)
  | place, 0, .begin_node name :: rest => (place,name) :: subnodes_from (place+1) 1 rest
  | place, depth+1, .begin_node _ :: rest => subnodes_from (place+1) (depth+2) rest
  | place, depth+1, .end_node :: rest => subnodes_from (place+1) depth rest
  | place, depth, .prop _ _ :: rest => subnodes_from (place+1) depth rest
  | place, depth, .nop :: rest => subnodes_from (place+1) depth rest
  | _, _, _ => []

/-- The subnodes that `fdt_for_each_subnode` visits, with their names. -/
def subnodes (fdt : Blob) (parent : ℕ) : List (ℕ × List Char) :=
  match fdt_get_name fdt parent with
  | some _ => subnodes_from (parent+1) 0 (fdt.drop (parent+1))
  | none => []

/-- `fdt_nodename_eq_`: a unit address may be left out. -/
def fdt_nodename_eq (name s : List Char) : Prop :=
  s <+: name ∧ (name.drop s.length = [] ∨ '@' ∉ s ∧ (name.drop s.length).head? = some '@')

instance (name s : List Char) : Decidable (fdt_nodename_eq name s) := inferInstanceAs (Decidable (_ ∧ _))

/-- `fdt_subnode_offset`, and `fdt_path_offset` of a path with one name from the root. -/
def fdt_subnode_offset (fdt : Blob) (parent : ℕ) (name : List Char) : Option ℕ :=
  ((subnodes fdt parent).find? (fdt_nodename_eq ·.2 name)).map (·.1)

def NUL : Char := .ofNat 0

/-- The strings in a value that are terminated, and what stands behind them. -/
def stringlist : List Char → List (List Char) × List Char
  | [] => ([],[])
  | c :: rest =>
    if c = NUL then ([] :: (stringlist rest).1,(stringlist rest).2)
    else
      match (stringlist rest).1 with
      | [] => ([],c :: (stringlist rest).2)
      | s :: strings => ((c :: s) :: strings,(stringlist rest).2)

/-- `fdt_stringlist_count`, which fails if the last string is not terminated. -/
def fdt_stringlist_count (fdt : Blob) (node : ℕ) (property : List Char) : Option ℕ :=
  match fdt_getprop fdt node property with
  | none => none
  | some list => if (stringlist list).2 = [] then some (stringlist list).1.length else none

/-- `fdt_stringlist_get`, which fails at the string that is not terminated. -/
def fdt_stringlist_get (fdt : Blob) (node : ℕ) (property : List Char) (idx : ℕ) : Option (List Char) :=
  match fdt_getprop fdt node property with
  | none => none
  | some list => (stringlist list).1[idx]?

/-- The path up to the last slash before its end, and that slash. -/
def drop_name (buf : List Char) : List Char := (buf.dropLast.reverse.dropWhile (· ≠ '/')).reverse

/-- The loop of `fdt_get_path` from a place on, at a depth, with `pdepth` names in `buf`. -/
def get_path_from (nodeoffset buflen : ℕ) : ℕ → ℕ → ℕ → List Char → List Tag → Option (List Char)
  | place, depth, pdepth, buf, .begin_node name :: rest =>
    let buf := drop_name^[pdepth-depth] buf
    let pdepth := min pdepth depth
    -- the name is left out if there is no room for it
    let fits : Bool := pdepth ≥ depth ∧ buf.length+name.length+1 ≤ buflen
    let buf := if fits then buf ++ name ++ ['/'] else buf
    let pdepth := if fits then pdepth+1 else pdepth
    if place = nodeoffset then
      if pdepth < depth+1 then none else some (if 1 < buf.length then buf.dropLast else buf)
    else get_path_from nodeoffset buflen (place+1) (depth+1) pdepth buf rest
  | place, depth, pdepth, buf, .end_node :: rest => get_path_from nodeoffset buflen (place+1) (depth-1) pdepth buf rest
  | place, depth, pdepth, buf, .prop _ _ :: rest => get_path_from nodeoffset buflen (place+1) depth pdepth buf rest
  | place, depth, pdepth, buf, .nop :: rest => get_path_from nodeoffset buflen (place+1) depth pdepth buf rest
  | _, _, _, _, .fdt_end :: _ => none
  | _, _, _, _, [] => none

def fdt_get_path (fdt : Blob) (nodeoffset buflen : ℕ) : Option (List Char) :=
  if buflen < 2 then none else get_path_from nodeoffset buflen 0 0 0 [] fdt

def check_full_from : ℕ → Bool → List Tag → Bool
  | depth, _, .fdt_end :: _ => depth = 0
  | _, true, _ => false
  | depth, _, .begin_node name :: rest => (depth = 0 → name = []) ∧ check_full_from (depth+1) false rest
  | depth, _, .end_node :: rest => depth ≠ 0 ∧ check_full_from (depth-1) (depth = 1) rest
  | depth, _, .prop _ _ :: rest => check_full_from depth false rest
  | depth, _, .nop :: rest => check_full_from depth false rest
  | _, _, [] => false

def fdt_check_full (fdt : Blob) : Bool := check_full_from 0 false fdt

/-! ## Open nodes -/

/-- The names of the nodes that are open behind some tags, the innermost first. -/
def open_names : List (List Char) → List Tag → List (List Char)
  | names, .begin_node name :: rest => open_names (name :: names) rest
  | names, .end_node :: rest => open_names names.tail rest
  | names, _ :: rest => open_names names rest
  | names, [] => names

def closed_names : List (List Char) → List Tag → List (List Char)
  | names, .begin_node name :: rest => closed_names (name :: names) rest
  | name :: names, .end_node :: rest => name :: closed_names names rest
  | [], .end_node :: rest => closed_names [] rest
  | names, _ :: rest => closed_names names rest
  | _, [] => []

def names_at (fdt : Blob) (node : ℕ) : List (List Char) := open_names [] (fdt.take (node+1))

variable {fdt : Blob} {name : List Char} {node : ℕ} (names : List (List Char))

theorem open_names_append (front back : List Tag) :
    open_names names (front ++ back) = open_names (open_names names front) back := by
  induction front generalizing names with
  | nil => rfl
  | cons tag front ih => cases tag <;> simp only [cons_append,open_names,ih]

theorem fdt_get_name_eq (named : fdt_get_name fdt node = some name) :
    fdt[node]? = some (.begin_node name) := by
  unfold fdt_get_name at named
  split at named
  · next found at_node =>
    rw [at_node,Option.some.inj named]
  · cases named

theorem take_node {tag : Tag} (at_node : fdt[node]? = some tag) :
    fdt.take (node+1) = fdt.take node ++ [tag] := by
  rw [take_add_one,at_node]
  rfl

/-- A subnode is found where its name stands open, directly inside the parent's. -/
theorem subnodes_from_open {names inner : List (List Char)} {place : ℕ} {tags : List Tag} {node : ℕ} {name : List Char}
    (member : (node,name) ∈ subnodes_from place inner.length tags) :
    ∃ k, node = place+k ∧ tags[k]? = some (.begin_node name) ∧
      open_names (inner ++ names) (tags.take (k+1)) = name :: names := by
  induction tags generalizing place inner with
  | nil =>
    rw [subnodes_from.eq_def] at member
    simp at member
  | cons tag tags ih =>
    have later {inner' : List (List Char)} (found : (node,name) ∈ subnodes_from (place+1) inner'.length tags)
        (first : open_names (inner ++ names) [tag] = inner' ++ names) :
        ∃ k, node = place+k ∧ (tag :: tags)[k]? = some (.begin_node name) ∧
          open_names (inner ++ names) ((tag :: tags).take (k+1)) = name :: names := by
      obtain ⟨k,is,at_k,opened⟩ := ih found
      refine ⟨k+1,by omega,at_k,?_⟩
      rw [take_succ_cons,← singleton_append,open_names_append,first,opened]
    cases tag with
    | begin_node first =>
      cases inner with
      | nil =>
        rw [length_nil,subnodes_from,mem_cons] at member
        rcases member with here | found
        · obtain ⟨rfl,rfl⟩ := Prod.mk.inj here
          exact ⟨0,rfl,rfl,rfl⟩
        · exact @later [first] found rfl
      | cons outer inner =>
        rw [length_cons,subnodes_from] at member
        exact @later (first :: outer :: inner) member rfl
    | end_node =>
      cases inner with
      | nil =>
        rw [length_nil,subnodes_from.eq_def] at member
        simp at member
      | cons outer inner =>
        rw [length_cons,subnodes_from] at member
        exact later member rfl
    | prop property value | nop =>
      rw [subnodes_from] at member
      exact later member rfl
    | fdt_end =>
      rw [subnodes_from.eq_def] at member
      simp at member

theorem subnode_at {parent node : ℕ} (member : (node,name) ∈ subnodes fdt parent) :
    fdt_get_name fdt node = some name ∧ names_at fdt node = name :: names_at fdt parent := by
  unfold subnodes at member
  split at member
  · obtain ⟨k,rfl,at_k,opened⟩ := @subnodes_from_open (names_at fdt parent) [] _ _ _ _ member
    rw [getElem?_drop] at at_k
    constructor
    · rw [fdt_get_name,at_k]
    · rw [names_at,add_assoc (parent+1),take_add,open_names_append]
      exact opened
  · simp at member

/-! ## Paths -/

def joined : List (List Char) → List Char
  | [] => []
  | name :: names => joined names ++ name ++ ['/']

theorem joined_ends : ∀ c ∈ (joined names).reverse.head?, c = '/' := by
  intro c ends
  cases names with
  | nil => simp [joined] at ends
  | cons name names =>
    simp only [joined,reverse_append,reverse_singleton,singleton_append,head?_cons,Option.mem_some_iff] at ends
    exact ends.symm

theorem dropWhile_slashless (slashless : '/' ∉ name) (rest : List Char) :
    (name.reverse ++ rest).dropWhile (· ≠ '/') = rest.dropWhile (· ≠ '/') := by
  apply dropWhile_append_of_pos
  intro c member
  refine decide_eq_true ?_
  rintro rfl
  exact slashless (mem_reverse.mp member)

theorem drop_name_joined (slashless : '/' ∉ name) (names : List (List Char)) :
    drop_name (joined (name :: names)) = joined names := by
  have kept : (joined names).reverse.dropWhile (· ≠ '/') = (joined names).reverse := by
    have ends := joined_ends names
    cases joined_is : (joined names).reverse with
    | nil => rfl
    | cons c rest =>
      rw [joined_is] at ends
      rw [ends c rfl]
      exact dropWhile_cons_of_neg (by simp)
  rw [drop_name,joined,dropLast_concat,reverse_append,dropWhile_slashless slashless,kept,reverse_reverse]

theorem drop_names_joined {junk : List (List Char)} (slashless : ∀ name ∈ junk, '/' ∉ name) (kept : List (List Char)) :
    drop_name^[junk.length] (joined (junk ++ kept)) = joined kept := by
  induction junk with
  | nil => rfl
  | cons name junk ih =>
    rw [length_cons,Function.iterate_succ_apply,cons_append,drop_name_joined (slashless name mem_cons_self)]
    exact ih (fun other member => slashless other (mem_cons_of_mem name member))

def path_text (buf : List Char) : List Char := if 1 < buf.length then buf.dropLast else buf

/-- The names in `buf` are those of the nodes that are open, less the inner ones that had
    no room, and behind closed ones that were not dropped yet. -/
structure Holding (junk skipped kept opened : List (List Char)) : Prop where
  opened_eq : opened = skipped ++ kept
  either : junk = [] ∨ skipped = []
  slashless : ∀ name ∈ junk, '/' ∉ name

theorem get_path_from_open {nodeoffset buflen place k : ℕ} {junk skipped kept opened : List (List Char)} {tags : List Tag}
    {name path : List Char} (holding : Holding junk skipped kept opened)
    (found : get_path_from nodeoffset buflen place opened.length (junk ++ kept).length (joined (junk ++ kept)) tags = some path)
    (target : nodeoffset = place+k) (at_k : tags[k]? = some (.begin_node name))
    (slashless : ∀ closed ∈ closed_names opened (tags.take k), '/' ∉ closed) :
    path = path_text (joined (open_names opened (tags.take (k+1)))) := by
  induction tags generalizing place k junk skipped kept opened with
  | nil => simp at at_k
  | cons tag tags ih =>
    obtain ⟨opened_eq,either,junk_slashless⟩ := holding
    cases tag with
    | begin_node first =>
      have dropped : (junk ++ kept).length-opened.length = junk.length := by
        rw [opened_eq,length_append,length_append]
        rcases either with rfl | rfl <;> simp
      have least : min (junk ++ kept).length opened.length = kept.length := by
        rw [opened_eq,length_append,length_append]
        rcases either with rfl | rfl <;> simp
      rw [get_path_from] at found
      rw [dropped,least,drop_names_joined junk_slashless] at found
      by_cases fits : kept.length ≥ opened.length ∧ (joined kept).length+first.length+1 ≤ buflen
      · have same : opened = kept := by
          have short := fits.1
          rw [opened_eq,length_append] at short
          have none_skipped : skipped = [] := length_eq_zero_iff.mp (by omega)
          rw [opened_eq,none_skipped,nil_append]
        simp only [fits,and_self,decide_true,if_true] at found
        cases k with
        | zero =>
          rw [if_pos (by omega),if_neg (by rw [same]; omega)] at found
          rw [← Option.some.inj found,same]
          rfl
        | succ k =>
          rw [if_neg (by omega)] at found
          have next : Holding [] [] (first :: kept) (first :: opened) := ⟨by rw [same]; rfl,.inl rfl,by simp⟩
          exact ih next found (by omega) at_k slashless
      · simp only [decide_eq_false fits,Bool.false_eq_true,if_false] at found
        have short : kept.length < opened.length+1 := by
          rw [opened_eq,length_append]
          omega
        cases k with
        | zero =>
          rw [if_pos (by omega),if_pos short] at found
          cases found
        | succ k =>
          rw [if_neg (by omega)] at found
          have next : Holding [] (first :: skipped) kept (first :: opened) := ⟨by rw [opened_eq]; rfl,.inl rfl,by simp⟩
          exact ih next found (by omega) at_k slashless
    | end_node =>
      cases k with
      | zero => simp at at_k
      | succ k =>
        rw [get_path_from] at found
        cases skipped with
        | cons inner skipped =>
          have no_junk : junk = [] := either.resolve_right (by simp)
          rw [opened_eq,cons_append] at slashless found ⊢
          have next : Holding junk skipped kept (skipped ++ kept) := ⟨rfl,.inl no_junk,junk_slashless⟩
          refine ih next found (by omega) at_k ?_
          intro closed member
          exact slashless closed (mem_cons_of_mem inner member)
        | nil =>
          rw [nil_append] at opened_eq
          subst opened_eq
          cases opened with
          | nil =>
            have next : Holding junk [] [] [] := ⟨rfl,.inr rfl,junk_slashless⟩
            exact ih next found (by omega) at_k slashless
          | cons inner kept =>
            have closed_inner : '/' ∉ inner := slashless inner mem_cons_self
            have next : Holding (junk ++ [inner]) [] kept kept := by
              refine ⟨rfl,.inr rfl,?_⟩
              intro name member
              rcases mem_append.mp member with old | new
              · exact junk_slashless name old
              · rwa [mem_singleton.mp new]
            have shifted : junk ++ inner :: kept = junk ++ [inner] ++ kept := by simp
            rw [shifted] at found
            refine ih next found (by omega) at_k ?_
            intro closed member
            exact slashless closed (mem_cons_of_mem inner member)
    | fdt_end =>
      rw [get_path_from] at found
      cases found
    | _ =>
      -- properties and tags that say nothing leave the path as it is
      cases k with
      | zero => simp at at_k
      | succ k =>
        rw [get_path_from] at found
        exact ih ⟨opened_eq,either,junk_slashless⟩ found (by omega) at_k slashless

/-- No node that is closed before a place has a slash in its name. -/
def ClosedSlashless (fdt : Blob) (node : ℕ) : Prop := ∀ name ∈ closed_names [] (fdt.take node), '/' ∉ name

theorem get_path_open {node buflen : ℕ} {name path : List Char} (named : fdt_get_name fdt node = some name)
    (slashless : ClosedSlashless fdt node) (found : fdt_get_path fdt node buflen = some path) :
    path = path_text (joined (names_at fdt node)) := by
  unfold fdt_get_path at found
  split at found
  · cases found
  · have nothing : Holding [] [] [] [] := ⟨rfl,.inl rfl,by simp⟩
    exact get_path_from_open nothing found (zero_add node).symm (fdt_get_name_eq named) slashless
end UBoot.Fdt
