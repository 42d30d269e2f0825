import Mathlib.Data.List.Basic
import UBoot.Fdt

/-!
The live device tree, `drivers/core/ofnode.c` and `drivers/core/of_access.c`: a node with its
properties and subnodes. New properties and subnodes are added behind the ones that are there.
Values are bytes; numbers stand in them with the high byte first.
-/
namespace UBoot.OfNode
open List
open Fdt (NUL stringlist)

/-- The errors, and `fault` for an access through a null pointer or past a buffer. -/
inductive Errno where
  | EINVAL
  | ENOENT
  | EEXIST
  | ENOSPC
  | ENODATA
  | EILSEQ
  | EOVERFLOW
  | ERANGE
  | ENOMEM
  | fault
deriving DecidableEq

abbrev CString := {s : List Char // NUL ∉ s}

inductive Node where
  | mk (name : List Char) (properties : List (String × List Char)) (children : List Node)

namespace Node

def name : Node → List Char
  | .mk name _ _ => name

def properties : Node → List (String × List Char)
  | .mk _ properties _ => properties

def children : Node → List Node
  | .mk _ _ children => children

end Node

def empty_node (name : List Char) : Node := .mk name [] []

/-- `cpu_to_fdt32` and `cpu_to_fdt64`: the bytes of a number, the high byte first. -/
def big : ℕ → ℕ → List Char
  | 0, _ => []
  | count+1, v => .ofNat (v/256^count%256) :: big count v

def of_big (bytes : List Char) : ℕ := bytes.foldl (fun v b => v*256+b.toNat) 0

def ofnode_read_prop (node : Node) (propname : String) : Option (List Char) :=
  (node.properties.find? (·.1 = propname)).map (·.2)

def of_write_prop (propname : String) (value : List Char) : List (String × List Char) → List (String × List Char)
  | [] => [(propname,value)]
  | pp :: rest => if pp.1 = propname then (pp.1,value) :: rest else pp :: of_write_prop propname value rest

def ofnode_write_prop (node : Node) (propname : String) (value : List Char) : Node :=
  .mk node.name (of_write_prop propname value node.properties) node.children

def ofnode_write_u32 (node : Node) (propname : String) (value : ℕ) : Node :=
  ofnode_write_prop node propname (big 4 value)

def ofnode_write_u64 (node : Node) (propname : String) (value : ℕ) : Node :=
  ofnode_write_prop node propname (big 8 value)

def ofnode_write_string (node : Node) (propname : String) (value : List Char) : Node :=
  ofnode_write_prop node propname (value ++ [NUL])

/-- `ofnode_write_bool` for a value that is true. -/
def ofnode_write_bool (node : Node) (propname : String) : Node := ofnode_write_prop node propname []

/-- `of_find_property_value_of_size` and the number at the front of the value. -/
def read_number (count : ℕ) (node : Node) (propname : String) : Except Errno ℕ :=
  match ofnode_read_prop node propname with
  | none => .error .EINVAL
  | some value => if value.length < count then .error .EOVERFLOW else .ok (of_big (value.take count))

def ofnode_read_u32 (node : Node) (propname : String) : Except Errno ℕ := read_number 4 node propname

def ofnode_read_u64 (node : Node) (propname : String) : Except Errno ℕ := read_number 8 node propname

def ofnode_read_bool (node : Node) (propname : String) : Bool := (ofnode_read_prop node propname).isSome

variable (name : List Char) (node : Node) (propname : String) (child : Node) (children : List Node)
    (value : List Char)

theorem no_nul : NUL ∉ value.takeWhile (· ≠ NUL) := by
  intro member
  have := mem_takeWhile_imp member
  simp at this

def ofnode_read_string (node : Node) (propname : String) : Option CString :=
  match ofnode_read_prop node propname with
  | none => none
  | some value => if NUL ∈ value then some ⟨value.takeWhile (· ≠ NUL),no_nul value⟩ else none

/-- `ofnode_read_string_list`, with `of_property_read_string_helper`. -/
def ofnode_read_string_list (node : Node) (propname : String) : Except Errno (List (List Char)) :=
  match ofnode_read_prop node propname with
  | none => .error .EINVAL
  | some value =>
    if (stringlist value).2 ≠ [] then .error .EILSEQ
    else if (stringlist value).1 = [] then .error .ENODATA
    else .ok (stringlist value).1

def ofnode_name_eq_unit (node : Node) (name : List Char) : Bool :=
  node.name = name ∨ '@' ∈ node.name ∧ '@' ∉ name ∧ node.name.takeWhile (· ≠ '@') = name

def ofnode_find_subnode (node : Node) (subnode_name : List Char) : Option Node :=
  node.children.find? (ofnode_name_eq_unit · subnode_name)

def add_child (node child : Node) : Node := .mk node.name node.properties (node.children ++ [child])

local instance names_lawful : LawfulBEq (List Char) := inferInstance

/-- `ofnode_add_subnode`, and what the caller then does with the new subnode. -/
def ofnode_add_subnode (node : Node) (name : List Char) (fill : Node → Except Errno Node) : Except Errno Node :=
  if name ∈ node.children.map Node.name then .error .EEXIST
  else do
    let child ← fill (empty_node name)
    .ok (add_child node child)

/-! ## Values -/

@[simp] theorem big_length (count v : ℕ) : (big count v).length = count := by
  induction count with
  | zero => rfl
  | succ count ih => simp [big,ih]

theorem of_big_from (bytes : List Char) (v : ℕ) :
    bytes.foldl (fun v b => v*256+b.toNat) v = v*256^bytes.length+of_big bytes := by
  unfold of_big
  induction bytes generalizing v with
  | nil => simp
  | cons b bytes ih =>
    rw [foldl_cons,ih,foldl_cons,ih (0*256+b.toNat),length_cons]
    ring

/-- A number is read back up to the width it was written in. -/
theorem of_big_big (count v : ℕ) : of_big (big count v) = v%256^count := by
  induction count with
  | zero => simp [of_big,big,Nat.mod_one]
  | succ count ih =>
    have byte : (Char.ofNat (v/256^count%256)).toNat = v/256^count%256 := by
      have valid : (v/256^count%256).isValidChar := .inl (by omega)
      have made : Char.ofNat (v/256^count%256) = Char.ofNatAux (v/256^count%256) valid := dif_pos valid
      rw [made]
      rfl
    unfold of_big at ih ⊢
    rw [big,foldl_cons,of_big_from,of_big,ih,byte,big_length,zero_mul,zero_add,pow_succ,Nat.mod_mul]
    ring

theorem stringlist_terminated {s : List Char} (free : NUL ∉ s) (rest : List Char) :
    stringlist (s ++ NUL :: rest) = (s :: (stringlist rest).1,(stringlist rest).2) := by
  induction s with
  | nil => simp [stringlist]
  | cons c s ih =>
    have here : c ≠ NUL := by
      intro same
      exact free (same ▸ mem_cons_self)
    have later := ih fun member => free (mem_cons_of_mem c member)
    rw [cons_append,stringlist,if_neg here,later]

/-- Strings that are terminated one by one are read back one by one. -/
theorem stringlist_joined {strings : List (List Char)} (free : ∀ s ∈ strings, NUL ∉ s) :
    stringlist (strings.flatMap (· ++ [NUL])) = (strings,[]) := by
  induction strings with
  | nil => rfl
  | cons s strings ih =>
    rw [flatMap_cons,append_assoc,singleton_append,stringlist_terminated (free s mem_cons_self),
      ih fun t member => free t (mem_cons_of_mem s member)]

theorem find_written (properties : List (String × List Char)) :
    (of_write_prop propname value properties).find? (·.1 = propname) = some (propname,value) := by
  induction properties with
  | nil => simp [of_write_prop]
  | cons pp properties ih =>
    unfold of_write_prop
    by_cases same : pp.1 = propname
    · simp [same]
    · simpa [same] using ih

theorem find_other {propname other : String} (differ : propname ≠ other) (value : List Char)
    (properties : List (String × List Char)) :
    (of_write_prop propname value properties).find? (·.1 = other) = properties.find? (·.1 = other) := by
  induction properties with
  | nil => simp [of_write_prop,differ]
  | cons pp properties ih =>
    unfold of_write_prop
    by_cases same : pp.1 = propname
    · have unlike : pp.1 ≠ other := same ▸ differ
      simp [same,differ]
    · rw [if_neg same,find?_cons,find?_cons,ih]

@[simp] theorem read_written :
    ofnode_read_prop (ofnode_write_prop node propname value) propname = some value := by
  unfold ofnode_read_prop ofnode_write_prop
  simp [Node.properties,find_written]

theorem read_other {propname other : String} (differ : propname ≠ other) (value : List Char) :
    ofnode_read_prop (ofnode_write_prop node propname value) other = ofnode_read_prop node other := by
  unfold ofnode_read_prop ofnode_write_prop
  simp only [Node.properties,find_other differ]

@[simp] theorem write_name :
    (ofnode_write_prop node propname value).name = node.name := rfl

@[simp] theorem write_children :
    (ofnode_write_prop node propname value).children = node.children := rfl

@[simp] theorem empty_name : (empty_node name).name = name := rfl

@[simp] theorem empty_children : (empty_node name).children = [] := rfl

@[simp] theorem read_empty :
    ofnode_read_prop (empty_node name) propname = none := rfl

@[simp] theorem add_child_children : (add_child node child).children = node.children ++ [child] := rfl

@[simp] theorem add_child_name : (add_child node child).name = node.name := rfl

@[simp] theorem read_add_child (propname : String) :
    ofnode_read_prop (add_child node child) propname = ofnode_read_prop node propname := rfl

/-- A number is read back from a property that holds it. -/
theorem read_number_held {node : Node} {propname : String} {count v : ℕ}
    (held : ofnode_read_prop node propname = some (big count v)) :
    read_number count node propname = .ok (v%256^count) := by
  unfold read_number
  have whole : (big count v).take count = big count v := take_of_length_le (by simp)
  simp [held,whole,of_big_big]

theorem read_string_held {node : Node} {propname : String} {s : CString}
    (held : ofnode_read_prop node propname = some (s.1 ++ [NUL])) : ofnode_read_string node propname = some s := by
  unfold ofnode_read_string
  have whole : (s.1 ++ [NUL]).takeWhile (· ≠ NUL) = s.1 := by
    rw [takeWhile_append_of_pos]
    · simp
    · intro c member
      have : c ≠ NUL := fun same => s.2 (same ▸ member)
      simpa using this
  have ended : NUL ∈ s.1 ++ [NUL] := mem_append_right _ mem_cons_self
  simp only [held,if_pos ended]
  exact congrArg some (Subtype.ext whole)

/-! ## Subnodes -/

theorem bind_ok {α β : Type} {x : Except Errno α} {f : α → Except Errno β} {b : β} :
    (x >>= f) = .ok b ↔ ∃ a, x = .ok a ∧ f a = .ok b := by
  cases x with
  | error e | ok a => simp [bind,Except.bind]

/-- A subnode can be added if its name is new and it can be filled. -/
theorem add_subnode_ok {node result : Node} {name : List Char} {fill : Node → Except Errno Node} :
    ofnode_add_subnode node name fill = .ok result ↔ name ∉ node.children.map Node.name ∧
      ∃ child, fill (empty_node name) = .ok child ∧ result = add_child node child := by
  unfold ofnode_add_subnode
  by_cases taken : name ∈ node.children.map Node.name
  · rw [if_pos taken]
    simp [taken]
  · rw [if_neg taken,bind_ok]
    constructor
    · rintro ⟨child,filled,added⟩
      exact ⟨taken,child,filled,(Except.ok.inj added).symm⟩
    · rintro ⟨-,child,filled,added⟩
      exact ⟨child,filled,by rw [added]⟩

def add_children (node : Node) (children : List Node) : Node := .mk node.name node.properties (node.children ++ children)

@[simp] theorem add_children_children :
    (add_children node children).children = node.children ++ children := rfl

@[simp] theorem add_children_name : (add_children node children).name = node.name := rfl

@[simp] theorem read_add_children (propname : String) :
    ofnode_read_prop (add_children node children) propname = ofnode_read_prop node propname := rfl

/-- Subnodes that are added one by one stand in the tree in their order. -/
theorem add_each_ok {α : Type} {add : Node → α → Except Errno Node} {made : α → Node} {Good : α → Prop}
    (one : ∀ node entry result, add node entry = .ok result ↔
      Good entry ∧ (made entry).name ∉ node.children.map Node.name ∧ result = add_child node (made entry))
    (entries : List α) (node result : Node) :
    entries.foldlM add node = .ok result ↔ (∀ entry ∈ entries, Good entry) ∧
      (entries.map fun entry => (made entry).name).Nodup ∧
      (∀ entry ∈ entries, (made entry).name ∉ node.children.map Node.name) ∧
      result = add_children node (entries.map made) := by
  induction entries generalizing node with
  | nil =>
    have same : add_children node [] = node := by
      cases node
      simp [add_children,Node.name,Node.properties,Node.children]
    simp [same,pure,Except.pure,eq_comm]
  | cons entry entries ih =>
    have joined : add_children (add_child node (made entry)) (entries.map made) =
        add_children node ((entry :: entries).map made) := by
      simp [add_children,add_child,Node.name,Node.properties,Node.children]
    rw [foldlM_cons,bind_ok]
    constructor
    · rintro ⟨between,first,rest⟩
      obtain ⟨good,fresh,rfl⟩ := (one _ _ _).mp first
      obtain ⟨goods,distinct,others,done⟩ := (ih _).mp rest
      refine ⟨?_,?_,?_,?_⟩
      · intro e member
        cases mem_cons.mp member with
        | inl here => exact here ▸ good
        | inr there => exact goods e there
      · rw [map_cons,nodup_cons]
        refine ⟨?_,distinct⟩
        intro member
        obtain ⟨e,there,same⟩ := mem_map.mp member
        apply others e there
        simp [same]
      · intro e member
        cases mem_cons.mp member with
        | inl here => exact here ▸ fresh
        | inr there =>
          intro taken
          apply others e there
          rw [add_child_children,map_append]
          exact mem_append_left _ taken
      · rw [done,joined]
    · rintro ⟨goods,distinct,others,done⟩
      rw [map_cons,nodup_cons] at distinct
      refine ⟨_,(one _ _ _).mpr ⟨goods entry mem_cons_self,others entry mem_cons_self,rfl⟩,(ih _).mpr ⟨?_,?_,?_,?_⟩⟩
      · intro e member
        exact goods e (mem_cons_of_mem _ member)
      · exact distinct.2
      · intro e member taken
        rw [add_child_children,map_append,mem_append] at taken
        cases taken with
        | inl before => exact others e (mem_cons_of_mem _ member) before
        | inr new =>
          have same : (made e).name = (made entry).name := by simpa using new
          exact distinct.1 (mem_map.mpr ⟨e,member,same⟩)
      · rw [done,joined]

end UBoot.OfNode
