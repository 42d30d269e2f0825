import Mathlib

/-!
Binding a device, `device_bind_common` in `drivers/core/device.c` with `uclass_bind_device` and
`uclass_unbind_device` in `drivers/core/uclass.c`. A device is known by the number of its
allocation. A call carries what its allocations and its hooks return and the calls that the hooks
make to bind children below the new device, as `dm_scan_fdt_dev` does.

A device that was bound by a hook stays in the list of its uclass even if the call fails
(`bound_left`), and without `DM_DEVICE_REMOVE` so does the device itself.
-/
namespace UBoot.DeviceBind
open List Function

def ENOMEM : ℤ := 12
def EINVAL : ℤ := 22
def ENOSYS : ℤ := 38

structure Config where
  DM_DEVICE_REMOVE : Bool
  OF_PLATDATA_NO_BIND : Bool

/-- What a call meets: whether there is a name, what `uclass_get` returns, whether the
    allocations that are needed succeed, and what the hooks return. A hook that is not there
    returns 0. -/
structure Setup where
  name : Bool
  uclass_get : ℤ
  uc : ℕ
  calloc : Bool
  plat : Bool
  uclass_plat : Bool
  parent_plat : Bool
  uclass_child_post_bind : ℤ
  bind : ℤ
  child_post_bind : ℤ
  post_bind : ℤ

/-- A call of `device_bind_common` with the calls that its hooks make: the parent uclass's
    `child_post_bind`, the driver's `bind`, the parent driver's `child_post_bind` and the
    uclass's `post_bind`. -/
inductive Call where
  | mk (setup : Setup) (uclass_child_post_bind bind child_post_bind post_bind : List Call)

/-- The devices, by the number of their allocation: the next one, `child_head` of each device
    and `dev_head` of each uclass. -/
structure State where
  next : ℕ
  child_head : ℕ → List ℕ
  dev_head : ℕ → List ℕ

def list_add_tail (dev : ℕ) (lists : ℕ → List ℕ) (head : ℕ) : ℕ → List ℕ :=
  Function.update lists head (lists head ++ [dev])

def list_del (dev : ℕ) (lists : ℕ → List ℕ) (head : ℕ) : ℕ → List ℕ :=
  Function.update lists head ((lists head).filter (· ≠ dev))

def allocate (s : State) : State := ⟨s.next+1,Function.update s.child_head s.next [],s.dev_head⟩

/-- `free(dev)`, and with it the list of children. -/
def free (dev : ℕ) (s : State) : State := { s with child_head := Function.update s.child_head dev [] }

def add_child (parent : Option ℕ) (dev : ℕ) (s : State) : State :=
  match parent with
  | none => s
  | some parent => { s with child_head := list_add_tail dev s.child_head parent }

/-- `list_del(&dev->sibling_node)`; the node of a device without parent is in no list. -/
def del_child (parent : Option ℕ) (dev : ℕ) (s : State) : State :=
  match parent with
  | none => s
  | some parent => { s with child_head := list_del dev s.child_head parent }

def add_device (uc dev : ℕ) (s : State) : State := { s with dev_head := list_add_tail dev s.dev_head uc }

def uclass_unbind_device (uc dev : ℕ) (s : State) : State := { s with dev_head := list_del dev s.dev_head uc }

section
variable (cfg : Config)

def fail_uclass_bind (parent : Option ℕ) (dev : ℕ) (s : State) : State :=
  free dev (if cfg.DM_DEVICE_REMOVE then del_child parent dev s else s)

/-- From the label `fail_bind` on, and from the labels above it, which only call `unbind`. -/
def fail_bind (parent : Option ℕ) (uc dev : ℕ) (s : State) : State :=
  fail_uclass_bind cfg parent dev (if cfg.DM_DEVICE_REMOVE then uclass_unbind_device uc dev s else s)

mutual
def device_bind_common (parent : Option ℕ) : Call → State → State × ℤ
  | ⟨setup,in_uclass_child_post_bind,in_bind,in_child_post_bind,in_post_bind⟩, s =>
    if cfg.OF_PLATDATA_NO_BIND then (s,- ENOSYS)
    else if ¬ setup.name then (s,- EINVAL)
    else if setup.uclass_get ≠ 0 then (s,setup.uclass_get)
    else if ¬ setup.calloc then (s,- ENOMEM)
    else
      let dev := s.next
      let s := allocate s
      if ¬ setup.plat then (free dev s,- ENOMEM)
      else if ¬ setup.uclass_plat then (free dev s,- ENOMEM)
      else if parent.isSome ∧ ¬ setup.parent_plat then (free dev s,- ENOMEM)
      else
        -- `uclass_bind_device`
        let s := add_device setup.uc dev (add_child parent dev s)
        let s := if parent.isSome then run_hook dev in_uclass_child_post_bind s else s
        if parent.isSome ∧ setup.uclass_child_post_bind ≠ 0 then
          (fail_uclass_bind cfg parent dev (uclass_unbind_device setup.uc dev s),setup.uclass_child_post_bind)
        else
          let s := run_hook dev in_bind s
          if setup.bind ≠ 0 then (fail_bind cfg parent setup.uc dev s,setup.bind)
          else
            let s := if parent.isSome then run_hook dev in_child_post_bind s else s
            if parent.isSome ∧ setup.child_post_bind ≠ 0 then
              (fail_bind cfg parent setup.uc dev s,setup.child_post_bind)
            else
              let s := run_hook dev in_post_bind s
              if setup.post_bind ≠ 0 then (fail_bind cfg parent setup.uc dev s,setup.post_bind)
              else (s,0)

/-- The calls of a hook, which bind children below the device. -/
def run_hook (dev : ℕ) : List Call → State → State
  | [], s => s
  | call :: calls, s => run_hook dev calls (device_bind_common (some dev) call s).1
end
end

/-! ## Calls -/

def Call.setup : Call → Setup
  | ⟨setup,_,_,_,_⟩ => setup

def Call.nested : Call → List Call
  | ⟨_,in_uclass_child_post_bind,in_bind,in_child_post_bind,in_post_bind⟩ =>
    in_uclass_child_post_bind ++ in_bind ++ in_child_post_bind ++ in_post_bind

theorem call_induction {P : Call → Prop} (step : ∀ call : Call, (∀ c ∈ call.nested, P c) → P call) : ∀ call, P call
  | ⟨setup,in_uclass_child_post_bind,in_bind,in_child_post_bind,in_post_bind⟩ => by
    apply step
    intro c below
    have smaller : sizeOf c < sizeOf (Call.mk setup in_uclass_child_post_bind in_bind in_child_post_bind in_post_bind) := by
      simp only [Call.nested,mem_append] at below
      simp only [Call.mk.sizeOf_spec]
      rcases below with ((is | is) | is) | is <;> have part := sizeOf_lt_of_mem is <;> omega
    exact call_induction step c
termination_by call => sizeOf call
decreasing_by exact smaller

/-- The hooks that are run if none fails, with what they return; the hooks of the parent only
    if there is one. -/
def hooks (has_parent : Bool) : Call → List (List Call × ℤ)
  | ⟨setup,in_uclass_child_post_bind,in_bind,in_child_post_bind,in_post_bind⟩ =>
    (if has_parent then [(in_uclass_child_post_bind,setup.uclass_child_post_bind)] else []) ++ [(in_bind,setup.bind)] ++
      (if has_parent then [(in_child_post_bind,setup.child_post_bind)] else []) ++ [(in_post_bind,setup.post_bind)]

def ran : List (List Call × ℤ) → List Call
  | [] => []
  | (calls,ret) :: rest => if ret ≠ 0 then calls else calls ++ ran rest

def first_error : List (List Call × ℤ) → ℤ
  | [] => 0
  | (_,ret) :: rest => if ret ≠ 0 then ret else first_error rest

section
variable (cfg : Config)

/-- The call fails before the device is in any list: at its arguments, at the uclass or at an
    allocation. -/
def Refused (has_parent : Bool) (call : Call) : Prop :=
  cfg.OF_PLATDATA_NO_BIND = true ∨ call.setup.name = false ∨ call.setup.uclass_get ≠ 0 ∨ call.setup.calloc = false ∨
    call.setup.plat = false ∨ call.setup.uclass_plat = false ∨ has_parent = true ∧ call.setup.parent_plat = false

def Fails (has_parent : Bool) (call : Call) : Prop :=
  Refused cfg has_parent call ∨ first_error (hooks has_parent call) ≠ 0

/-- A call that is made, at any depth, while another one runs. -/
inductive Made : Bool → Call → Call → Prop
  | direct {has_parent : Bool} {call c : Call} : ¬ Refused cfg has_parent call → c ∈ ran (hooks has_parent call) →
    Made has_parent call c
  | nested {has_parent : Bool} {call c d : Call} : ¬ Refused cfg has_parent call → c ∈ ran (hooks has_parent call) →
    Made true c d → Made has_parent call d

def link (parent : Option ℕ) (uc : ℕ) (s : State) : State := add_device uc s.next (add_child parent s.next (allocate s))

/-- The device is taken out of the lists and freed, as far as the configuration allows. -/
def unlink (parent : Option ℕ) (setup : Setup) (dev : ℕ) (s : State) : State :=
  if parent.isSome ∧ setup.uclass_child_post_bind ≠ 0 then
    fail_uclass_bind cfg parent dev (uclass_unbind_device setup.uc dev s)
  else fail_bind cfg parent setup.uc dev s
end

theorem ran_nested {has_parent : Bool} {call c : Call} (is_run : c ∈ ran (hooks has_parent call)) : c ∈ call.nested := by
  obtain ⟨setup,in_uclass_child_post_bind,in_bind,in_child_post_bind,in_post_bind⟩ := call
  have part : ∀ {calls : List Call} {ret : ℤ} {rest : List (List Call × ℤ)}, c ∈ ran ((calls,ret) :: rest) →
      c ∈ calls ∨ c ∈ ran rest := by
    intro calls ret rest is
    rw [ran] at is
    split_ifs at is
    · exact .inl is
    · exact mem_append.1 is
  simp only [Call.nested,mem_append]
  cases has_parent
  · rcases part is_run with is | is
    · simp [is]
    · rcases part is with is | is
      · simp [is]
      · cases is
  · rcases part is_run with is | is
    · simp [is]
    · rcases part is with is | is
      · simp [is]
      · rcases part is with is | is
        · simp [is]
        · rcases part is with is | is
          · simp [is]
          · cases is

theorem run_hook_append (cfg : Config) (dev : ℕ) (calls more : List Call) (s : State) :
    run_hook cfg dev (calls ++ more) s = run_hook cfg dev more (run_hook cfg dev calls s) := by
  induction calls generalizing s with
  | nil => simp [run_hook]
  | cons call calls following =>
    rw [cons_append,run_hook,run_hook,following]

section
variable {cfg : Config} {parent : Option ℕ} {call : Call} {s : State}

theorem bind_refused (refused : Refused cfg parent.isSome call) : (device_bind_common cfg parent call s).2 ≠ 0 ∧
    ((device_bind_common cfg parent call s).1 = s ∨ (device_bind_common cfg parent call s).1 = free s.next (allocate s)) := by
  obtain ⟨setup,in_uclass_child_post_bind,in_bind,in_child_post_bind,in_post_bind⟩ := call
  unfold Refused Call.setup at refused
  have memory : - ENOMEM ≠ 0 := by decide
  have invalid : - EINVAL ≠ 0 := by decide
  have missing : - ENOSYS ≠ 0 := by decide
  rw [device_bind_common]
  by_cases no_bind : cfg.OF_PLATDATA_NO_BIND = true
  · simp [no_bind,missing]
  by_cases name : setup.name = true
  · by_cases uclass : setup.uclass_get = 0
    · by_cases calloc : setup.calloc = true
      · by_cases plat : setup.plat = true
        · by_cases uclass_plat : setup.uclass_plat = true
          · have parent_plat : parent.isSome = true ∧ setup.parent_plat = false := by
              simpa [no_bind,name,uclass,calloc,plat,uclass_plat] using refused
            simp [no_bind,name,uclass,calloc,plat,uclass_plat,parent_plat,memory]
          · simp [no_bind,name,uclass,calloc,plat,uclass_plat,memory]
        · simp [no_bind,name,uclass,calloc,plat,memory]
      · simp [no_bind,name,uclass,calloc,memory]
    · simp [no_bind,name,uclass]
  · simp [no_bind,name,invalid]

theorem bind_linked (linked : ¬ Refused cfg parent.isSome call) :
    device_bind_common cfg parent call s =
      (if first_error (hooks parent.isSome call) = 0 then
          run_hook cfg s.next (ran (hooks parent.isSome call)) (link parent call.setup.uc s)
        else unlink cfg parent call.setup s.next
          (run_hook cfg s.next (ran (hooks parent.isSome call)) (link parent call.setup.uc s)),
        first_error (hooks parent.isSome call)) := by
  obtain ⟨setup,in_uclass_child_post_bind,in_bind,in_child_post_bind,in_post_bind⟩ := call
  simp only [Refused,Call.setup,not_or,not_and,Bool.not_eq_false,Bool.not_eq_true,ne_eq,not_not] at linked
  obtain ⟨no_bind,name,uclass,calloc,plat,uclass_plat,parent_plat⟩ := linked
  have parent_plat : ¬ (parent.isSome = true ∧ ¬ setup.parent_plat = true) := fun both => both.2 (parent_plat both.1)
  rw [device_bind_common]
  simp only [no_bind,name,uclass,calloc,plat,uclass_plat,parent_plat,if_false,not_true_eq_false,ne_eq,Bool.false_eq_true]
  simp only [hooks,Call.setup,unlink,link]
  cases parent with
  | none =>
    by_cases bind : setup.bind = 0
    · by_cases post_bind : setup.post_bind = 0
      · simp [ran,first_error,bind,post_bind,run_hook_append]
      · simp [ran,first_error,bind,post_bind,run_hook_append]
    · simp [ran,first_error,bind]
  | some parent =>
    by_cases in_uclass : setup.uclass_child_post_bind = 0
    · by_cases bind : setup.bind = 0
      · by_cases child_post_bind : setup.child_post_bind = 0
        · by_cases post_bind : setup.post_bind = 0
          · simp [ran,first_error,in_uclass,bind,child_post_bind,post_bind,run_hook_append]
          · simp [ran,first_error,in_uclass,bind,child_post_bind,post_bind,run_hook_append]
        · simp [ran,first_error,in_uclass,bind,child_post_bind,run_hook_append]
      · simp [ran,first_error,in_uclass,bind,run_hook_append]
    · simp [ran,first_error,in_uclass]

theorem fails_iff : (device_bind_common cfg parent call s).2 ≠ 0 ↔ Fails cfg parent.isSome call := by
  by_cases refused : Refused cfg parent.isSome call
  · exact ⟨fun _ => .inl refused,fun _ => (bind_refused refused).1⟩
  · rw [bind_linked refused]
    simp [Fails,refused]
end

/-! ## What stays -/

/-- Devices in lists are allocated, and what is not allocated has no children. -/
structure Allocated (s : State) : Prop where
  children : ∀ d, ∀ x ∈ s.child_head d, x < s.next
  devices : ∀ uc, ∀ x ∈ s.dev_head uc, x < s.next
  unused : ∀ d, s.next ≤ d → s.child_head d = []

/-- The devices that were there are in the same lists, in the same order. -/
structure Extends (s s' : State) : Prop where
  later : s.next ≤ s'.next
  children : ∀ d, (s'.child_head d).filter (· < s.next) = s.child_head d
  devices : ∀ uc, (s'.dev_head uc).filter (· < s.next) = s.dev_head uc

structure Keeps (s s' : State) : Prop extends Extends s s' where
  allocated : Allocated s'

theorem filter_old {l : List ℕ} {n : ℕ} (old : ∀ x ∈ l, x < n) : l.filter (· < n) = l :=
  filter_eq_self.2 (by simpa using old)

theorem filter_filter_old (l : List ℕ) {n m : ℕ} (le : n ≤ m) : (l.filter (· < m)).filter (· < n) = l.filter (· < n) := by
  rw [filter_filter]
  apply filter_congr
  intro x _
  by_cases small : x < n
  · simp [small,lt_of_lt_of_le small le]
  · simp [small]

theorem keeps_refl {s : State} (allocated : Allocated s) : Keeps s s :=
  ⟨⟨le_rfl,fun d => filter_old (allocated.children d),fun uc => filter_old (allocated.devices uc)⟩,allocated⟩

theorem keeps_trans {s t u : State} (first : Keeps s t) (second : Keeps t u) : Keeps s u := by
  refine ⟨⟨le_trans first.later second.later,fun d => ?_,fun uc => ?_⟩,second.allocated⟩
  · rw [← filter_filter_old _ first.later,second.children,first.children]
  · rw [← filter_filter_old _ first.later,second.devices,first.devices]

theorem extends_child {s s' : State} (ext : Extends s s') {d x : ℕ} (is : x ∈ s.child_head d) : x ∈ s'.child_head d := by
  rw [← ext.children d] at is
  exact (mem_filter.1 is).1

theorem extends_device {s s' : State} (ext : Extends s s') {uc x : ℕ} (is : x ∈ s.dev_head uc) : x ∈ s'.dev_head uc := by
  rw [← ext.devices uc] at is
  exact (mem_filter.1 is).1

theorem list_add_tail_apply (dev : ℕ) (lists : ℕ → List ℕ) (head d : ℕ) :
    list_add_tail dev lists head d = if d = head then lists d ++ [dev] else lists d := by
  unfold list_add_tail
  by_cases is : d = head
  · subst is
    simp
  · simp [is]

theorem list_del_apply (dev : ℕ) (lists : ℕ → List ℕ) (head d : ℕ) :
    list_del dev lists head d = if d = head then (lists d).filter (· ≠ dev) else lists d := by
  unfold list_del
  by_cases is : d = head
  · subst is
    simp
  · simp [is]

theorem link_child_head (parent : Option ℕ) (uc : ℕ) (s : State) (d : ℕ) (unused : s.child_head s.next = []) :
    (link parent uc s).child_head d = if some d = parent then s.child_head d ++ [s.next] else s.child_head d := by
  have fresh : Function.update s.child_head s.next [] = s.child_head := by
    rw [← unused]
    exact update_eq_self _ _
  cases parent with
  | none => simp [link,add_device,add_child,allocate,fresh]
  | some parent => simp [link,add_device,add_child,allocate,fresh,list_add_tail_apply]

theorem link_dev_head (parent : Option ℕ) (uc : ℕ) (s : State) (u : ℕ) :
    (link parent uc s).dev_head u = if u = uc then s.dev_head u ++ [s.next] else s.dev_head u := by
  cases parent with
  | none | some parent => simp [link,add_device,add_child,allocate,list_add_tail_apply]

theorem link_next (parent : Option ℕ) (uc : ℕ) (s : State) : (link parent uc s).next = s.next+1 := by
  cases parent with
  | none => rfl
  | some parent => rfl

theorem link_keeps {s : State} (allocated : Allocated s) (parent : Option ℕ) (uc : ℕ) (there : ∀ p ∈ parent, p < s.next) :
    Keeps s (link parent uc s) := by
  have unused := allocated.unused s.next le_rfl
  have tail {l : List ℕ} (old : ∀ x ∈ l, x < s.next) : (l ++ [s.next]).filter (· < s.next) = l := by
    rw [filter_append,filter_old old]
    simp
  refine ⟨⟨?_,fun d => ?_,fun u => ?_⟩,⟨fun d x is => ?_,fun u x is => ?_,fun d beyond => ?_⟩⟩
  · rw [link_next]
    omega
  · rw [link_child_head _ _ _ _ unused]
    split_ifs
    · exact tail (allocated.children d)
    · exact filter_old (allocated.children d)
  · rw [link_dev_head]
    split_ifs
    · exact tail (allocated.devices u)
    · exact filter_old (allocated.devices u)
  · rw [link_child_head _ _ _ _ unused] at is
    rw [link_next]
    have known := allocated.children d x
    split_ifs at is
    · rcases mem_append.1 is with is | is
      · have := known is
        omega
      · simp at is
        omega
    · have := known is
      omega
  · rw [link_dev_head] at is
    rw [link_next]
    have known := allocated.devices u x
    split_ifs at is
    · rcases mem_append.1 is with is | is
      · have := known is
        omega
      · simp at is
        omega
    · have := known is
      omega
  · rw [link_next] at beyond
    rw [link_child_head _ _ _ _ unused,if_neg]
    · exact allocated.unused d (by omega)
    · rintro rfl
      have small := there d rfl
      omega

theorem keeps_without {s t u : State} (known : Allocated s) (keeps : Keeps s t) {dev : ℕ} (new : s.next ≤ dev) (next : u.next = t.next)
    (children : ∀ d, u.child_head d = t.child_head d ∨ u.child_head d = (t.child_head d).filter (· ≠ dev) ∨
      s.next ≤ d ∧ u.child_head d = [])
    (devices : ∀ uc, u.dev_head uc = t.dev_head uc ∨ u.dev_head uc = (t.dev_head uc).filter (· ≠ dev)) : Keeps s u := by
  have apart (l : List ℕ) : (l.filter (· ≠ dev)).filter (· < s.next) = l.filter (· < s.next) := by
    rw [filter_filter]
    apply filter_congr
    intro x _
    by_cases small : x < s.next
    · have differs : x ≠ dev := by omega
      simp [small,differs]
    · simp [small]
  refine ⟨⟨next ▸ keeps.later,fun d => ?_,fun uc => ?_⟩,⟨fun d x is => ?_,fun uc x is => ?_,fun d beyond => ?_⟩⟩
  · rcases children d with same | less | ⟨unknown,empty⟩
    · rw [same,keeps.children]
    · rw [less,apart,keeps.children]
    · rw [empty,known.unused d unknown]
      rfl
  · rcases devices uc with same | less
    · rw [same,keeps.devices]
    · rw [less,apart,keeps.devices]
  · rw [next]
    rcases children d with same | less | ⟨_,empty⟩
    · exact keeps.allocated.children d x (same ▸ is)
    · rw [less] at is
      exact keeps.allocated.children d x (mem_filter.1 is).1
    · rw [empty] at is
      cases is
  · rw [next]
    rcases devices uc with same | less
    · exact keeps.allocated.devices uc x (same ▸ is)
    · rw [less] at is
      exact keeps.allocated.devices uc x (mem_filter.1 is).1
  · rw [next] at beyond
    have empty := keeps.allocated.unused d beyond
    rcases children d with same | less | ⟨_,is⟩
    · rw [same,empty]
    · rw [less,empty,filter_nil]
    · exact is

section
variable {cfg : Config} {parent : Option ℕ}

theorem unlink_next (setup : Setup) (dev : ℕ) (s : State) : (unlink cfg parent setup dev s).next = s.next := by
  unfold unlink fail_bind fail_uclass_bind
  split_ifs <;> cases parent <;> rfl

theorem free_child_head (dev : ℕ) (s : State) (d : ℕ) : (free dev s).child_head d = if d = dev then [] else s.child_head d := by
  by_cases is : d = dev
  · subst is
    simp [free]
  · simp [free,is]

theorem del_child_child_head (dev : ℕ) (s : State) (d : ℕ) : (del_child parent dev s).child_head d =
    if some d = parent then (s.child_head d).filter (· ≠ dev) else s.child_head d := by
  cases parent with
  | none => rfl
  | some parent => simp [del_child,list_del_apply]

theorem del_child_dev_head (dev : ℕ) (s : State) : (del_child parent dev s).dev_head = s.dev_head := by
  cases parent <;> rfl

theorem unlink_child_head (setup : Setup) (dev : ℕ) (s : State) (d : ℕ) : (unlink cfg parent setup dev s).child_head d =
    if d = dev then []
    else if cfg.DM_DEVICE_REMOVE = true ∧ some d = parent then (s.child_head d).filter (· ≠ dev) else s.child_head d := by
  obtain ⟨t,same,is⟩ : ∃ t : State, t.child_head = s.child_head ∧
      unlink cfg parent setup dev s = fail_uclass_bind cfg parent dev t := by
    unfold unlink fail_bind
    split_ifs
    · exact ⟨uclass_unbind_device setup.uc dev s,rfl,rfl⟩
    · exact ⟨uclass_unbind_device setup.uc dev s,rfl,rfl⟩
    · exact ⟨s,rfl,rfl⟩
  rw [is,fail_uclass_bind,free_child_head,← same]
  by_cases own : d = dev
  · rw [if_pos own,if_pos own]
  · rw [if_neg own,if_neg own]
    cases cfg.DM_DEVICE_REMOVE with
    | true => simp [del_child_child_head]
    | false => simp

theorem unlink_dev_head (setup : Setup) (dev : ℕ) (s : State) (u : ℕ) : (unlink cfg parent setup dev s).dev_head u =
    if u = setup.uc ∧ (cfg.DM_DEVICE_REMOVE = true ∨ parent.isSome = true ∧ setup.uclass_child_post_bind ≠ 0) then
      (s.dev_head u).filter (· ≠ dev)
    else s.dev_head u := by
  have last (t : State) : (fail_uclass_bind cfg parent dev t).dev_head = t.dev_head := by
    unfold fail_uclass_bind
    split_ifs
    · exact del_child_dev_head _ _
    · rfl
  have unbound : (uclass_unbind_device setup.uc dev s).dev_head u =
      if u = setup.uc then (s.dev_head u).filter (· ≠ dev) else s.dev_head u := list_del_apply _ _ _ _
  unfold unlink fail_bind
  by_cases first : parent.isSome = true ∧ setup.uclass_child_post_bind ≠ 0
  · rw [if_pos first,last,unbound]
    simp [first]
  · rw [if_neg first,last]
    cases cfg.DM_DEVICE_REMOVE with
    | true =>
      rw [if_pos rfl,unbound]
      simp
    | false => simp [first]

theorem unlink_keeps {s t : State} (known : Allocated s) (keeps : Keeps s t) (setup : Setup) :
    Keeps s (unlink cfg parent setup s.next t) := by
  apply keeps_without known keeps le_rfl (unlink_next _ _ _)
  · intro d
    rw [unlink_child_head]
    split_ifs with own last
    · exact .inr (.inr ⟨by omega,rfl⟩)
    · exact .inr (.inl rfl)
    · exact .inl rfl
  · intro uc
    rw [unlink_dev_head]
    split_ifs
    · exact .inr rfl
    · exact .inl rfl

theorem free_allocate {s : State} (allocated : Allocated s) :
    (free s.next (allocate s)).child_head = s.child_head ∧ (free s.next (allocate s)).dev_head = s.dev_head := by
  have unused := allocated.unused s.next le_rfl
  refine ⟨?_,rfl⟩
  simp only [free,allocate,update_idem]
  rw [← unused]
  exact update_eq_self _ _

theorem free_allocate_keeps {s : State} (allocated : Allocated s) : Keeps s (free s.next (allocate s)) := by
  obtain ⟨children,devices⟩ := free_allocate allocated
  have next : (free s.next (allocate s)).next = s.next+1 := rfl
  refine ⟨⟨by omega,fun d => ?_,fun uc => ?_⟩,⟨fun d x is => ?_,fun uc x is => ?_,fun d beyond => ?_⟩⟩
  · rw [children]
    exact filter_old (allocated.children d)
  · rw [devices]
    exact filter_old (allocated.devices uc)
  · rw [children] at is
    have old := allocated.children d x is
    omega
  · rw [devices] at is
    have old := allocated.devices uc x is
    omega
  · rw [children]
    exact allocated.unused d (by omega)

theorem hook_keeps {calls : List Call}
    (each : ∀ c ∈ calls, ∀ (parent : Option ℕ) (s : State), Allocated s → (∀ p ∈ parent, p < s.next) →
      Keeps s (device_bind_common cfg parent c s).1)
    {dev : ℕ} {s : State} (allocated : Allocated s) (there : dev < s.next) : Keeps s (run_hook cfg dev calls s) := by
  induction calls generalizing s with
  | nil =>
    rw [run_hook]
    exact keeps_refl allocated
  | cons call calls following =>
    rw [run_hook]
    have first := each call (by simp) (some dev) s allocated (by simpa using there)
    exact keeps_trans first (following (fun c is => each c (by simp [is])) first.allocated (lt_of_lt_of_le there first.later))

theorem bind_extends (call : Call) : ∀ (parent : Option ℕ) (s : State), Allocated s → (∀ p ∈ parent, p < s.next) →
    Keeps s (device_bind_common cfg parent call s).1 := by
  induction call using call_induction with
  | step call below =>
    intro parent s allocated there
    by_cases refused : Refused cfg parent.isSome call
    · rcases (bind_refused refused).2 with same | same
      · rw [same]
        exact keeps_refl allocated
      · rw [same]
        exact free_allocate_keeps allocated
    · have linked := link_keeps allocated parent call.setup.uc there
      have hooked : Keeps s (run_hook cfg s.next (ran (hooks parent.isSome call)) (link parent call.setup.uc s)) :=
        keeps_trans linked (hook_keeps (fun c is => below c (ran_nested is)) linked.allocated (by rw [link_next]; omega))
      rw [bind_linked refused]
      split_ifs
      · exact hooked
      · exact unlink_keeps allocated hooked _
end

/-! ## What is left after a failure -/

section
variable {cfg : Config}

def Left (s s' : State) : Prop := ∃ uc, ∃ x ∈ s'.dev_head uc, s.next ≤ x

theorem left_of_later {s t u : State} (keeps : Keeps s t) (left : Left t u) : Left s u := by
  obtain ⟨uc,x,is,new⟩ := left
  exact ⟨uc,x,is,le_trans keeps.later new⟩

theorem left_extends {s t u : State} (ext : Keeps t u) (left : Left s t) : Left s u := by
  obtain ⟨uc,x,is,new⟩ := left
  exact ⟨uc,x,extends_device ext.toExtends is,new⟩

theorem hook_left {calls : List Call} {c : Call} (is : c ∈ calls) {dev : ℕ}
    (leaves : ∀ s, Allocated s → dev < s.next → Left s (device_bind_common cfg (some dev) c s).1) {s : State}
    (allocated : Allocated s) (there : dev < s.next) : Left s (run_hook cfg dev calls s) := by
  induction calls generalizing s with
  | nil => cases is
  | cons call calls following =>
    rw [run_hook]
    have first : Keeps s (device_bind_common cfg (some dev) call s).1 :=
      bind_extends call (some dev) s allocated (by simpa using there)
    have still : dev < (device_bind_common cfg (some dev) call s).1.next := lt_of_lt_of_le there first.later
    rcases mem_cons.1 is with rfl | is
    · exact left_extends (hook_keeps (fun c _ => bind_extends c) first.allocated still) (leaves s allocated there)
    · exact left_of_later first (following is first.allocated still)

theorem bound_listed {parent : Option ℕ} {call : Call} {s : State} (allocated : Allocated s) (there : ∀ p ∈ parent, p < s.next)
    (bound : ¬ Fails cfg parent.isSome call) : Left s (device_bind_common cfg parent call s).1 := by
  have linked : ¬ Refused cfg parent.isSome call := fun refused => bound (.inl refused)
  have no_error : first_error (hooks parent.isSome call) = 0 := by
    by_contra error
    exact bound (.inr error)
  rw [bind_linked linked,if_pos no_error]
  have link_there := link_keeps allocated parent call.setup.uc there
  have keeps : Keeps (link parent call.setup.uc s) (run_hook cfg s.next (ran (hooks parent.isSome call))
      (link parent call.setup.uc s)) :=
    hook_keeps (fun c _ => bind_extends c) link_there.allocated (by rw [link_next]; omega)
  refine left_extends keeps ⟨call.setup.uc,s.next,?_,le_rfl⟩
  rw [link_dev_head]
  simp

theorem bound_left (call : Call) : ∀ (parent : Option ℕ) (s : State) (d : Call), Allocated s → (∀ p ∈ parent, p < s.next) →
    Made cfg parent.isSome call d → ¬ Fails cfg true d → Left s (device_bind_common cfg parent call s).1 := by
  induction call using call_induction with
  | step call below =>
    intro parent s d allocated there made bound
    have hook_leaves {c : Call} (linked : ¬ Refused cfg parent.isSome call) (is : c ∈ ran (hooks parent.isSome call))
        (leaves : ∀ t, Allocated t → s.next < t.next → Left t (device_bind_common cfg (some s.next) c t).1) :
        Left s (device_bind_common cfg parent call s).1 := by
      have link_there := link_keeps allocated parent call.setup.uc there
      obtain ⟨uc,x,listed,new⟩ := hook_left is leaves link_there.allocated (by rw [link_next]; omega)
      rw [link_next] at new
      rw [bind_linked linked]
      split_ifs
      · exact ⟨uc,x,listed,by omega⟩
      · -- only the device itself is taken out
        refine ⟨uc,x,?_,by omega⟩
        rw [unlink_dev_head]
        split_ifs
        · exact mem_filter.2 ⟨listed,by simp; omega⟩
        · exact listed
    cases made with
    | direct linked is =>
      exact hook_leaves linked is (fun t known new => bound_listed known (by simpa using new) bound)
    | @nested _ _ c _ linked is made =>
      exact hook_leaves linked is (fun t known new => below c (ran_nested is) (some s.next) t d known (by simpa using new) made bound)

def Same (s s' : State) : Prop := s'.child_head = s.child_head ∧ s'.dev_head = s.dev_head

theorem hook_same {calls : List Call} {dev : ℕ}
    (same : ∀ c ∈ calls, ∀ s, Allocated s → dev < s.next → Same s (device_bind_common cfg (some dev) c s).1) {s : State}
    (allocated : Allocated s) (there : dev < s.next) : Same s (run_hook cfg dev calls s) := by
  induction calls generalizing s with
  | nil =>
    rw [run_hook]
    exact ⟨rfl,rfl⟩
  | cons call calls following =>
    rw [run_hook]
    have first : Keeps s (device_bind_common cfg (some dev) call s).1 :=
      bind_extends call (some dev) s allocated (by simpa using there)
    obtain ⟨children,devices⟩ := same call (by simp) s allocated there
    obtain ⟨later_children,later_devices⟩ := following (fun c is => same c (by simp [is])) first.allocated
      (lt_of_lt_of_le there first.later)
    exact ⟨later_children.trans children,later_devices.trans devices⟩

theorem bind_same (removes : cfg.DM_DEVICE_REMOVE = true) (call : Call) : ∀ (parent : Option ℕ) (s : State), Allocated s →
    (∀ p ∈ parent, p < s.next) → Fails cfg parent.isSome call → (∀ d, Made cfg parent.isSome call d → Fails cfg true d) →
      Same s (device_bind_common cfg parent call s).1 := by
  induction call using call_induction with
  | step call below =>
    intro parent s allocated there fails none_bound
    by_cases refused : Refused cfg parent.isSome call
    · rcases (bind_refused refused).2 with same | same
      · rw [same]
        exact ⟨rfl,rfl⟩
      · rw [same]
        exact free_allocate allocated
    have error : ¬ first_error (hooks parent.isSome call) = 0 := by
      rcases fails with is | error
      · exact absurd is refused
      · exact error
    have unused := allocated.unused s.next le_rfl
    have link_there := link_keeps allocated parent call.setup.uc there
    obtain ⟨children,devices⟩ := @hook_same cfg (ran (hooks parent.isSome call)) s.next
      (fun c is t known new => below c (ran_nested is) (some s.next) t known (by simpa using new)
        (none_bound c (.direct refused is)) (fun d made => none_bound d (.nested refused is made)))
      _ link_there.allocated (by rw [link_next]; omega)
    rw [bind_linked refused,if_neg error]
    have without {l : List ℕ} (old : ∀ x ∈ l, x < s.next) : l.filter (· ≠ s.next) = l := by
      apply filter_eq_self.2
      intro x is
      have small := old x is
      simp
      omega
    have tail {l : List ℕ} (old : ∀ x ∈ l, x < s.next) : (l ++ [s.next]).filter (· ≠ s.next) = l := by
      rw [filter_append,without old]
      simp
    constructor
    · funext d
      rw [unlink_child_head,children,link_child_head _ _ _ _ unused]
      by_cases own : d = s.next
      · subst own
        simp [unused]
      · rw [if_neg own]
        by_cases is_parent : some d = parent
        · rw [if_pos ⟨removes,is_parent⟩,if_pos is_parent,tail (allocated.children d)]
        · rw [if_neg (fun both => is_parent both.2),if_neg is_parent]
    · funext u
      rw [unlink_dev_head,devices,link_dev_head]
      by_cases own : u = call.setup.uc
      · rw [if_pos ⟨own,.inl removes⟩,if_pos own,tail (allocated.devices u)]
      · rw [if_neg (fun both => own both.1),if_neg own]
end

structure DriverModel extends State where
  allocated : Allocated toState

def NoTrace (s s' : State) : Prop :=
  (∀ d x, x ∈ s'.child_head d ↔ x ∈ s.child_head d) ∧ (∀ uc x, x ∈ s'.dev_head uc ↔ x ∈ s.dev_head uc)

theorem no_trace_of_same {s s' : State} (same : Same s s') : NoTrace s s' := by
  obtain ⟨children,devices⟩ := same
  unfold NoTrace
  simp [children,devices]

theorem trace_of_left {s s' : State} (allocated : Allocated s) (left : Left s s') : ¬ NoTrace s s' := by
  obtain ⟨uc,x,is,new⟩ := left
  intro none
  have old := allocated.devices uc x ((none.2 uc x).1 is)
  omega

theorem device_left {cfg : Config} (stays : cfg.DM_DEVICE_REMOVE = false) {parent : Option ℕ} {call : Call} {s : State}
    (allocated : Allocated s) (there : ∀ p ∈ parent, p < s.next) (fails : first_error (hooks parent.isSome call) ≠ 0)
    (linked : ¬ Refused cfg parent.isSome call) : ¬ NoTrace s (device_bind_common cfg parent call s).1 := by
  have link_there := link_keeps allocated parent call.setup.uc there
  have keeps : Keeps (link parent call.setup.uc s) (run_hook cfg s.next (ran (hooks parent.isSome call))
      (link parent call.setup.uc s)) :=
    hook_keeps (fun c _ => bind_extends c) link_there.allocated (by rw [link_next]; omega)
  rw [bind_linked linked,if_neg fails]
  intro none
  by_cases first : parent.isSome = true ∧ call.setup.uclass_child_post_bind ≠ 0
  · -- `uclass_bind_device` failed: the parent still has the device as a child
    obtain ⟨p,rfl⟩ := Option.isSome_iff_exists.1 first.1
    have small := there p rfl
    have child : s.next ∈ (link (some p) call.setup.uc s).child_head p := by
      rw [link_child_head _ _ _ _ (allocated.unused s.next le_rfl)]
      simp
    have still := extends_child keeps.toExtends child
    have known := (none.1 p s.next).1 (by
      rw [unlink_child_head,if_neg (by omega),if_neg (by simp [stays])]
      exact still)
    have old := allocated.children p _ known
    omega
  · -- a later hook failed: the uclass still has the device
    have device : s.next ∈ (link parent call.setup.uc s).dev_head call.setup.uc := by
      rw [link_dev_head]
      simp
    have still := extends_device keeps.toExtends device
    have known := (none.2 call.setup.uc s.next).1 (by
      rw [unlink_dev_head,if_neg (fun both => both.2.elim (by simp [stays]) first)]
      exact still)
    have old := allocated.devices call.setup.uc _ known
    omega

/-- A call that fails leaves no trace exactly if it fails before the device is in a list, or
    devices can be removed and none of the calls that its hooks made bound a device. -/
theorem failed_bind_no_trace_iff (cfg : Config) (s : DriverModel) (parent : Option (Fin s.next)) (call : Call) :
    ((device_bind_common cfg (parent.map (·.val)) call s.toState).2 ≠ 0 →
        NoTrace s.toState (device_bind_common cfg (parent.map (·.val)) call s.toState).1) ↔
      (Fails cfg parent.isSome call → ¬ Refused cfg parent.isSome call →
        cfg.DM_DEVICE_REMOVE = true ∧ ∀ d, Made cfg parent.isSome call d → Fails cfg true d) := by
  have there : ∀ p ∈ parent.map (·.val), p < s.next := by
    intro p is
    obtain ⟨q,_,rfl⟩ := Option.map_eq_some_iff.1 is
    exact q.isLt
  have some_same : (parent.map (·.val)).isSome = parent.isSome := Option.isSome_map
  rw [fails_iff,some_same]
  apply imp_congr_right
  intro fails
  constructor
  · intro none linked
    have error : first_error (hooks (parent.map (·.val)).isSome call) ≠ 0 := by
      rw [some_same]
      exact fails.resolve_left linked
    constructor
    · by_contra stays
      exact device_left (by simpa using stays) s.allocated there error (by rwa [some_same]) none
    · intro d made
      by_contra bound
      exact trace_of_left s.allocated (bound_left call _ _ d s.allocated there (by rwa [some_same]) bound) none
  · intro clean
    by_cases refused : Refused cfg parent.isSome call
    · rw [← some_same] at refused
      apply no_trace_of_same
      rcases (bind_refused refused).2 with same | same
      · rw [same]
        exact ⟨rfl,rfl⟩
      · rw [same]
        exact free_allocate s.allocated
    · obtain ⟨removes,none_bound⟩ := clean refused
      exact no_trace_of_same (bind_same removes call _ _ s.allocated there (by rwa [some_same]) (by rwa [some_same]))

/-- A root device, in the uclass with number 0. -/
def root : DriverModel where
  next := 1
  child_head := fun _ => []
  dev_head := fun uc => if uc = 0 then [0] else []
  allocated := by
    refine ⟨by simp,?_,by simp⟩
    intro uc x is
    change x ∈ (if uc = 0 then [0] else []) at is
    change x < 1
    split_ifs at is
    · simp_all
    · cases is

def plain_setup : Setup := ⟨true,0,1,true,true,true,true,0,0,0,0⟩

/-- A bus that binds a child and then fails in its `bind`. -/
def failing_bus : Call := ⟨{ plain_setup with bind := - EINVAL },[],[⟨plain_setup,[],[],[],[]⟩],[],[]⟩

/-- What a call returns and leaves breaks the promise that a failure leaves no trace. -/
def TraceLeft (s : State) (r : State × ℤ) : Prop := r.2 ≠ 0 ∧ ¬ NoTrace s r.1

theorem listed_trace {s : State} {r : State × ℤ} {uc x : ℕ} (error : r.2 ≠ 0) (listed : x ∈ r.1.dev_head uc)
    (new : x ∉ s.dev_head uc) : TraceLeft s r := ⟨error,fun none => new ((none.2 uc x).1 listed)⟩

/-- The child of the freed bus stays in the list of its uclass, and without removal of devices
    so does the bus. -/
theorem child_of_freed_bus : TraceLeft root.toState (device_bind_common ⟨true,false⟩ (some 0) failing_bus root.toState) ∧
    TraceLeft root.toState (device_bind_common ⟨false,false⟩ (some 0) failing_bus root.toState) := by
  constructor
  · apply @listed_trace _ _ 1 2 <;> decide +kernel
  · apply @listed_trace _ _ 1 1 <;> decide +kernel

end UBoot.DeviceBind
