import UBoot.Runs

/-!
Starting, stopping and unbinding devices, `device_probe` in `drivers/core/device.c` and
`device_remove` and `device_unbind` in `drivers/core/device-remove.c`. What the hooks return is
asked from an environment, by time; `probe` and `post_probe` may start children of their device.
Functions outside the driver model that can stop a probe are hooks that return only a status.

Only the label `fail` of `device_probe` stops a device without looking at its children.
-/
namespace UBoot.DeviceProbe
open UBoot.Runs List Function

def ENOMEM : ℤ := 12
def EINVAL : ℤ := 22
def EKEYREJECTED : ℤ := 129
def EPROBE_DEFER : ℤ := 517

def DM_REMOVE_NORMAL : ℕ := 1
def DM_REMOVE_ACTIVE_DMA : ℕ := 2^9
def DM_REMOVE_OS_PREPARE : ℕ := 2^10
def DM_REMOVE_ACTIVE_ALL : ℕ := DM_REMOVE_ACTIVE_DMA+DM_REMOVE_OS_PREPARE
def DM_FLAG_VITAL : ℕ := 2^14
def DM_REMOVE_NON_VITAL : ℕ := DM_FLAG_VITAL

inductive Hook where
  | pre_probe_event
  | alloc_priv
  | of_to_plat
  | power_domain_on
  | iommu_enable
  | dma_constraints
  | pre_probe
  | uclass_child_pre_probe
  | child_pre_probe
  | clk_set_defaults
  | probe
  | child_post_probe
  | post_probe
  | post_probe_event
  | pre_remove_event
  | pre_remove
  | remove
  | post_remove_event
  | unbind
  | pre_unbind
deriving DecidableEq

/-- The hooks: what they return at a time for a device, and which devices they try to start. -/
structure Env where
  ret : ℕ → Hook → ℕ → ℤ
  calls : ℕ → Hook → ℕ → List ℕ
  accepted : ∀ time hook dev, ret time hook dev ≠ - EKEYREJECTED

/-- What does not change about the devices: parent, uclass and flags of the driver. -/
structure Tree where
  parent : ℕ → Option ℕ
  uclass : ℕ → ℕ
  drv_flags : ℕ → ℕ

/-- The bound devices with their flags `DM_FLAG_ACTIVATED` and `DM_FLAG_PLATDATA_VALID`, the
    lists of children and of uclasses, the number of hooks so far, and whether the label `fail`
    was reached while a child was active. -/
structure State where
  bound : ℕ → Bool
  activated : ℕ → Bool
  plat_valid : ℕ → Bool
  child_head : ℕ → List ℕ
  dev_head : ℕ → List ℕ
  time : ℕ
  orphaned : Bool

section
variable (env : Env) (tree : Tree)

def ask (hook : Hook) (dev : ℕ) (s : State) : State × ℤ := ({ s with time := s.time+1 },env.ret s.time hook dev)

def ask_all (dev : ℕ) : List Hook → State → State × ℤ
  | [], s => (s,0)
  | hook :: hooks, s =>
    let (s,ret) := ask env hook dev s
    if ret ≠ 0 then (s,ret) else ask_all dev hooks s

def device_free (dev : ℕ) (s : State) : State := { s with plat_valid := Function.update s.plat_valid dev false }

def of_to_plat_self (dev : ℕ) (s : State) : State × ℤ :=
  let (s,ret) := ask_all env dev [.alloc_priv,.of_to_plat] s
  if ret ≠ 0 then (device_free dev s,ret)
  else ({ s with plat_valid := Function.update s.plat_valid dev true },0)

/-- `device_of_to_plat`. A call that is nested too deep fails at its first hook. -/
def device_of_to_plat : ℕ → ℕ → State → State × ℤ
  | 0, dev, s => if s.plat_valid dev then (s,0) else (device_free dev s,- ENOMEM)
  | depth+1, dev, s =>
    if s.plat_valid dev then (s,0)
    else
      match tree.parent dev with
      | none => of_to_plat_self env dev s
      | some parent =>
        let (s,ret) := device_of_to_plat depth parent s
        if ret ≠ 0 then (device_free dev s,ret)
        else if s.plat_valid dev then (s,0)
        else of_to_plat_self env dev s

def flags_remove (flags drv_flags : ℕ) : ℤ :=
  if flags &&& DM_REMOVE_NORMAL = 0 then
    if ¬ (flags &&& DM_REMOVE_NON_VITAL = 0 ∨ drv_flags &&& DM_FLAG_VITAL = 0) then - EPROBE_DEFER
    else if ¬ (flags &&& DM_REMOVE_ACTIVE_ALL = 0 ∨ drv_flags &&& flags ≠ 0) then - EKEYREJECTED
    else 0
  else 0

/-- `flags & ~DM_REMOVE_ACTIVE_ALL` in 32 bits. -/
def without_active (flags : ℕ) : ℕ := flags &&& (2^32-1-DM_REMOVE_ACTIVE_ALL)

/-- The loop of `device_chld_remove`, with the call for a child. -/
def chld_remove_loop (remove : ℕ → State → State × ℤ) : List ℕ → ℤ → State → State × ℤ
  | [], result, s => (s,result)
  | pos :: rest, result, s =>
    let (s,ret) := remove pos s
    if ret = - EPROBE_DEFER then chld_remove_loop remove rest ret s
    else if ret ≠ 0 ∧ ret ≠ - EKEYREJECTED then (s,ret)
    else chld_remove_loop remove rest result s

def remove_self (dev : ℕ) (s : State) : State × ℤ :=
  let (s,ret) := ask_all env dev [.pre_remove,.remove] s
  if ret ≠ 0 then (s,ret)
  else
    let s := device_free dev s
    ask env .post_remove_event dev { s with activated := Function.update s.activated dev false }

/-- `device_remove`. A call that is nested too deep fails at its first notification. -/
def device_remove : ℕ → ℕ → ℕ → State → State × ℤ
  | 0, dev, _, s => if s.activated dev then (s,- ENOMEM) else (s,0)
  | depth+1, dev, flags, s =>
    if ¬ s.activated dev then (s,0)
    else
      let (s,ret) := ask env .pre_remove_event dev s
      if ret ≠ 0 then (s,ret)
      else
        let cret := flags_remove flags (tree.drv_flags dev)
        -- `device_chld_remove`
        let (s,ret) := chld_remove_loop
          (fun pos => device_remove depth pos (if cret ≠ 0 then flags else without_active flags)) (s.child_head dev) 0 s
        if ret ≠ 0 ∧ ret ≠ - EKEYREJECTED then (s,ret)
        else if cret ≠ 0 then (s,cret)
        else remove_self env dev s

def fail (dev : ℕ) (s : State) : State :=
  device_free dev { s with
    activated := Function.update s.activated dev false
    orphaned := s.orphaned || (s.child_head dev).any s.activated }

/-- A hook that may start children of its device, with the call that starts one. -/
def ask_with_children (probe : ℕ → State → State × ℤ) (hook : Hook) (dev : ℕ) (s : State) : State × ℤ :=
  let ret := env.ret s.time hook dev
  let calls := env.calls s.time hook dev
  let s := { s with time := s.time+1 }
  (calls.foldl (fun s child => if child ∈ s.child_head dev then (probe child s).1 else s) s,ret)

/-- The hooks of `device_probe` before the driver's own. -/
def before_probe : List Hook :=
  [.power_domain_on,.iommu_enable,.dma_constraints,.pre_probe,.uclass_child_pre_probe,.child_pre_probe,.clk_set_defaults]

def probe_self (probe : ℕ → State → State × ℤ) (remove : ℕ → ℕ → State → State × ℤ) (dev : ℕ) (s : State) : State × ℤ :=
  let s := { s with activated := Function.update s.activated dev true }
  let (s,ret) := ask_all env dev before_probe s
  if ret ≠ 0 then (fail dev s,ret)
  else
    let (s,ret) := ask_with_children env probe .probe dev s
    if ret ≠ 0 then (fail dev s,ret)
    else
      -- `uclass_post_probe_device`
      let (s,ret) := ask env .child_post_probe dev s
      if ret ≠ 0 then (fail dev (remove dev DM_REMOVE_NORMAL s).1,ret)
      else
        let (s,ret) := ask_with_children env probe .post_probe dev s
        if ret ≠ 0 then (fail dev (remove dev DM_REMOVE_NORMAL s).1,ret)
        else
          let (s,ret) := ask env .post_probe_event dev s
          if ret ≠ 0 then (fail dev (remove dev DM_REMOVE_NORMAL s).1,ret)
          else (s,0)

/-- `device_probe`. A call that is nested too deep fails at its first notification. -/
def device_probe : ℕ → ℕ → State → State × ℤ
  | 0, dev, s => if s.activated dev then (s,0) else (s,- ENOMEM)
  | depth+1, dev, s =>
    if s.activated dev then (s,0)
    else
      let (s,ret) := ask env .pre_probe_event dev s
      if ret ≠ 0 then (s,ret)
      else
        let (s,ret) := device_of_to_plat env tree depth dev s
        if ret ≠ 0 then (fail dev s,ret)
        else
          match tree.parent dev with
          | none => probe_self env (device_probe depth) (device_remove env tree depth) dev s
          | some parent =>
            let (s,ret) := device_probe depth parent s
            if ret ≠ 0 then (fail dev s,ret)
            else if s.activated dev then (s,0)
            else probe_self env (device_probe depth) (device_remove env tree depth) dev s

def release (dev : ℕ) (s : State) : State :=
  { s with
    bound := Function.update s.bound dev false
    dev_head := Function.update s.dev_head (tree.uclass dev) ((s.dev_head (tree.uclass dev)).erase dev)
    child_head :=
      match tree.parent dev with
      | none => s.child_head
      | some parent => Function.update s.child_head parent ((s.child_head parent).erase dev) }

/-- The loop of `device_chld_unbind`, with the call for a child. -/
def chld_unbind_loop (unbind : ℕ → State → State × ℤ) : List ℕ → ℤ → State → State × ℤ
  | [], saved_ret, s => (s,saved_ret)
  | pos :: rest, saved_ret, s =>
    let (s,ret) := unbind pos s
    chld_unbind_loop unbind rest (if ret ≠ 0 ∧ saved_ret = 0 then ret else saved_ret) s

/-- `device_unbind`. A call that is nested too deep fails at its first hook. -/
def device_unbind : ℕ → ℕ → State → State × ℤ
  | 0, dev, s => if s.activated dev then (s,- EINVAL) else if ¬ s.bound dev then (s,- EINVAL) else (s,- ENOMEM)
  | depth+1, dev, s =>
    if s.activated dev then (s,- EINVAL)
    else if ¬ s.bound dev then (s,- EINVAL)
    else
      let (s,ret) := ask env .unbind dev s
      if ret ≠ 0 then (s,ret)
      else
        -- `device_chld_unbind`
        let (s,ret) := chld_unbind_loop (device_unbind depth) (s.child_head dev) 0 s
        if ret ≠ 0 then (s,ret)
        else
          let (s,ret) := ask env .pre_unbind dev s
          if ret ≠ 0 then (s,ret)
          else (release tree dev s,0)

inductive Op where
  | device_probe (dev : ℕ)
  | device_remove (dev flags : ℕ)
  | device_unbind (dev : ℕ)

def Op.dev : Op → ℕ
  | .device_probe dev => dev
  | .device_remove dev _ => dev
  | .device_unbind dev => dev

/-- A call for a device that is bound, with hooks nested up to a depth. -/
def step (depth : ℕ) (s : State) (op : Op) : State :=
  let s := { s with orphaned := false }
  if s.bound op.dev then
    match op with
    | .device_probe dev => (device_probe env tree depth dev s).1
    | .device_remove dev flags => (device_remove env tree depth dev flags s).1
    | .device_unbind dev => (device_unbind env tree depth dev s).1
  else s
end

/-! ## Invariant -/

/-- Each bound device is once in the list of its parent and once in that of its uclass, and
    only active devices stand above an active one. -/
structure Inv (tree : Tree) (s : State) : Prop where
  child : ∀ d x, x ∈ s.child_head d ↔ s.bound x = true ∧ tree.parent x = some d
  child_once : ∀ d, (s.child_head d).Nodup
  device : ∀ uc x, x ∈ s.dev_head uc ↔ s.bound x = true ∧ tree.uclass x = uc
  device_once : ∀ uc, (s.dev_head uc).Nodup
  parent_bound : ∀ x p, s.bound x = true → tree.parent x = some p → s.bound p = true
  active_bound : ∀ x, s.activated x = true → s.bound x = true
  active_parent : ∀ x p, s.activated x = true → tree.parent x = some p → s.activated p = true

inductive Below (tree : Tree) (d : ℕ) : ℕ → Prop
  | self : Below tree d d
  | child {x p : ℕ} : tree.parent x = some p → Below tree d p → Below tree d x

structure Lists (s s' : State) : Prop where
  bound : s'.bound = s.bound
  child_head : s'.child_head = s.child_head
  dev_head : s'.dev_head = s.dev_head

theorem lists_refl (s : State) : Lists s s := ⟨rfl,rfl,rfl⟩

variable {dev : ℕ} {s s' t u : State} (depth : ℕ)

theorem lists_trans (first : Lists s t) (second : Lists t u) : Lists s u :=
  ⟨second.bound.trans first.bound,second.child_head.trans first.child_head,second.dev_head.trans first.dev_head⟩

structure Quiet (s s' : State) : Prop extends Lists s s' where
  activated : s'.activated = s.activated
  orphaned : s'.orphaned = s.orphaned

theorem quiet_refl (s : State) : Quiet s s := ⟨lists_refl s,rfl,rfl⟩

theorem quiet_trans (first : Quiet s t) (second : Quiet t u) : Quiet s u :=
  ⟨lists_trans first.toLists second.toLists,second.activated.trans first.activated,second.orphaned.trans first.orphaned⟩

section
variable {env : Env} {tree : Tree}

theorem below_active (inv : Inv tree s) {d x : ℕ} (below : Below tree d x) (active : s.activated x = true) :
    s.activated d = true := by
  induction below with
  | self => exact active
  | child parent _ above => exact above (inv.active_parent _ _ active parent)

theorem inv_of_lists (inv : Inv tree s) (lists : Lists s s')
    (active_bound : ∀ x, s'.activated x = true → s.bound x = true)
    (active_parent : ∀ x p, s'.activated x = true → tree.parent x = some p → s'.activated p = true) : Inv tree s' := by
  obtain ⟨bound,child_head,dev_head⟩ := lists
  refine ⟨?_,?_,?_,?_,?_,?_,active_parent⟩
  · rw [bound,child_head]
    exact inv.child
  · rw [child_head]
    exact inv.child_once
  · rw [bound,dev_head]
    exact inv.device
  · rw [dev_head]
    exact inv.device_once
  · rw [bound]
    exact inv.parent_bound
  · rw [bound]
    exact active_bound

theorem inv_of_quiet (inv : Inv tree s) (quiet : Quiet s s') : Inv tree s' := by
  apply inv_of_lists inv quiet.toLists
  · rw [quiet.activated]
    exact inv.active_bound
  · rw [quiet.activated]
    exact inv.active_parent

theorem ask_quiet (hook : Hook) (dev : ℕ) (s : State) : Quiet s (ask env hook dev s).1 := ⟨⟨rfl,rfl,rfl⟩,rfl,rfl⟩

theorem ask_accepted (hook : Hook) (dev : ℕ) (s : State) : (ask env hook dev s).2 ≠ - EKEYREJECTED := env.accepted _ _ _

theorem ask_all_quiet (dev : ℕ) (hooks : List Hook) (s : State) : Quiet s (ask_all env dev hooks s).1 := by
  induction hooks generalizing s with
  | nil => exact quiet_refl s
  | cons hook hooks following =>
    simp only [ask_all]
    split_ifs
    · exact ask_quiet hook dev s
    · exact quiet_trans (ask_quiet hook dev s) (following _)

theorem ask_all_accepted (dev : ℕ) (hooks : List Hook) (s : State) : (ask_all env dev hooks s).2 ≠ - EKEYREJECTED := by
  induction hooks generalizing s with
  | nil =>
    change (0 : ℤ) ≠ - EKEYREJECTED
    decide
  | cons hook hooks following =>
    simp only [ask_all]
    split_ifs
    · exact ask_accepted hook dev s
    · exact following _

theorem device_free_quiet (dev : ℕ) (s : State) : Quiet s (device_free dev s) := ⟨⟨rfl,rfl,rfl⟩,rfl,rfl⟩

theorem of_to_plat_self_quiet (dev : ℕ) (s : State) : Quiet s (of_to_plat_self env dev s).1 := by
  have asked := @ask_all_quiet env dev [.alloc_priv,.of_to_plat] s
  simp only [of_to_plat_self]
  split_ifs
  · exact quiet_trans asked (device_free_quiet dev _)
  · exact ⟨⟨asked.bound,asked.child_head,asked.dev_head⟩,asked.activated,asked.orphaned⟩

theorem of_to_plat_quiet (depth dev : ℕ) (s : State) : Quiet s (device_of_to_plat env tree depth dev s).1 := by
  induction depth generalizing dev s with
  | zero =>
    rw [device_of_to_plat]
    split_ifs
    · exact quiet_refl s
    · exact device_free_quiet dev s
  | succ depth above =>
    rw [device_of_to_plat]
    split_ifs with valid
    · exact quiet_refl s
    cases tree.parent dev with
    | none => exact of_to_plat_self_quiet dev s
    | some parent =>
      have up := above parent s
      simp only
      split_ifs
      · exact quiet_trans up (device_free_quiet dev _)
      · exact up
      · exact quiet_trans up (of_to_plat_self_quiet dev _)
end

/-! ## Removing -/

section
variable {env : Env} {tree : Tree}

theorem without_active_clear (flags : ℕ) : without_active flags &&& DM_REMOVE_ACTIVE_ALL = 0 := by
  unfold without_active
  rw [Nat.and_assoc]
  have apart : (2^32-1-DM_REMOVE_ACTIVE_ALL) &&& DM_REMOVE_ACTIVE_ALL = 0 := by decide
  rw [apart,Nat.and_zero]

theorem flags_remove_rejected {flags drv_flags : ℕ} (rejected : flags_remove flags drv_flags = - EKEYREJECTED) :
    flags &&& DM_REMOVE_ACTIVE_ALL ≠ 0 := by
  intro clear
  simp only [flags_remove,clear,true_or,not_true_eq_false,if_false] at rejected
  split_ifs at rejected
  · exact absurd rejected (by decide)
  · exact absurd rejected (by decide)
  · exact absurd rejected (by decide)

/-- What removing one of these devices does: it stops only devices below them, from below, and
    a device whose removal returns 0 is stopped. -/
structure Removes (tree : Tree) (above : ℕ → Prop) (s s' : State) : Prop extends Lists s s' where
  orphaned : s'.orphaned = s.orphaned
  fewer : ∀ x, s'.activated x = true → s.activated x = true
  calm : Inv tree s → Inv tree s'
  below : Inv tree s → ∀ x, s.activated x = true → ¬ s'.activated x = true → ∃ d, above d ∧ Below tree d x

theorem removes_of_quiet {above : ℕ → Prop} (quiet : Quiet s s') : Removes tree above s s' := by
  refine ⟨quiet.toLists,quiet.orphaned,fun x active => ?_,fun inv => inv_of_quiet inv quiet,fun _ x active stopped => ?_⟩
  · rwa [quiet.activated] at active
  · rw [quiet.activated] at stopped
    exact absurd active stopped

theorem removes_trans {above : ℕ → Prop} (first : Removes tree above s t) (second : Removes tree above t u) :
    Removes tree above s u := by
  refine ⟨lists_trans first.toLists second.toLists,second.orphaned.trans first.orphaned,
    fun x active => first.fewer x (second.fewer x active),fun inv => second.calm (first.calm inv),
    fun inv x active stopped => ?_⟩
  by_cases still : t.activated x = true
  · exact second.below (first.calm inv) x still stopped
  · exact first.below inv x active still

theorem removes_mono {above above' : ℕ → Prop}
    (weaker : Inv tree s → ∀ d, above d → ∃ e, above' e ∧ Below tree e d) (removes : Removes tree above s s') : Removes tree above' s s' := by
  refine ⟨removes.toLists,removes.orphaned,removes.fewer,removes.calm,fun inv x active stopped => ?_⟩
  obtain ⟨d,is,below⟩ := removes.below inv x active stopped
  obtain ⟨e,is_above,higher⟩ := weaker inv d is
  refine ⟨e,is_above,?_⟩
  clear stopped active
  induction below with
  | self => exact higher
  | child parent _ rest => exact .child parent rest

structure RemoveCall (tree : Tree) (dev flags : ℕ) (s : State) (r : State × ℤ) : Prop where
  removes : Removes tree (· = dev) s r.1
  stopped : r.2 = 0 → ¬ r.1.activated dev = true
  rejected : r.2 = - EKEYREJECTED → flags &&& DM_REMOVE_ACTIVE_ALL ≠ 0

theorem chld_remove_calls {remove : ℕ → State → State × ℤ} {flags : ℕ}
    (calls : ∀ dev s, RemoveCall tree dev flags s (remove dev s)) (children : List ℕ) (result : ℤ) (s : State) :
    Removes tree (· ∈ children) s (chld_remove_loop remove children result s).1 ∧
      (flags &&& DM_REMOVE_ACTIVE_ALL = 0 → (chld_remove_loop remove children result s).2 = 0 →
        ∀ c ∈ children, ¬ (chld_remove_loop remove children result s).1.activated c = true) ∧
      ((chld_remove_loop remove children result s).2 = 0 → result = 0) ∧
      ((chld_remove_loop remove children result s).2 = - EKEYREJECTED → result = - EKEYREJECTED) := by
  induction children generalizing result s with
  | nil =>
    rw [chld_remove_loop]
    exact ⟨removes_of_quiet (quiet_refl s),fun _ _ c is => absurd is not_mem_nil,id,id⟩
  | cons pos rest following =>
    have call := calls pos s
    have first : Removes tree (· ∈ pos :: rest) s (remove pos s).1 :=
      removes_mono (fun _ d (is : d = pos) => ⟨pos,by simp,is ▸ .self⟩) call.removes
    have later {t : State} {ret : ℤ} (loop : Removes tree (· ∈ rest) t (chld_remove_loop remove rest ret t).1) :
        Removes tree (· ∈ pos :: rest) t (chld_remove_loop remove rest ret t).1 :=
      removes_mono (fun _ d is => ⟨d,by simp [is],.self⟩) loop
    rw [chld_remove_loop]
    by_cases deferred : (remove pos s).2 = - EPROBE_DEFER
    · obtain ⟨loop,stopped,zero,rejected⟩ := following (remove pos s).2 (remove pos s).1
      have not_zero : ¬ (chld_remove_loop remove rest (remove pos s).2 (remove pos s).1).2 = 0 := by
        intro is
        have none := zero is
        rw [deferred] at none
        exact absurd none (by decide)
      have not_rejected : ¬ (chld_remove_loop remove rest (remove pos s).2 (remove pos s).1).2 = - EKEYREJECTED := by
        intro is
        have none := rejected is
        rw [deferred] at none
        exact absurd none (by decide)
      simp only [deferred,if_true] at loop not_zero not_rejected ⊢
      exact ⟨removes_trans first (later loop),fun _ is => absurd is not_zero,fun is => absurd is not_zero,
        fun is => absurd is not_rejected⟩
    · by_cases fails : (remove pos s).2 ≠ 0 ∧ (remove pos s).2 ≠ - EKEYREJECTED
      · simp only [deferred,if_false]
        rw [if_pos fails]
        exact ⟨first,fun _ is => absurd is fails.1,fun is => absurd is fails.1,fun is => absurd is fails.2⟩
      obtain ⟨loop,stopped,zero,rejected⟩ := following result (remove pos s).1
      simp only [deferred,fails,if_false]
      refine ⟨removes_trans first (later loop),fun clear is c mem => ?_,zero,rejected⟩
      rcases mem_cons.1 mem with rfl | mem
      · intro active
        have returned : (remove c s).2 = 0 := by
          by_contra nonzero
          exact call.rejected (not_not.1 (fun other => fails ⟨nonzero,other⟩)) clear
        exact call.stopped returned (loop.fewer c active)
      · exact stopped clear is c mem

theorem stop_removes (lists : Lists s s') (orphaned : s'.orphaned = s.orphaned)
    (is : s'.activated = update s.activated dev false)
    (children : ∀ c ∈ s.child_head dev, ¬ s.activated c = true) : Removes tree (· = dev) s s' := by
  refine ⟨lists,orphaned,fun x active => ?_,fun inv => ?_,fun _ x active stopped => ⟨dev,rfl,?_⟩⟩
  · rw [is] at active
    by_cases own : x = dev
    · simp [own] at active
    · simpa [own] using active
  · apply inv_of_lists inv lists
    · intro x active
      rw [is] at active
      by_cases own : x = dev
      · simp [own] at active
      · exact inv.active_bound x (by simpa [own] using active)
    · intro x p active parent
      rw [is] at active ⊢
      by_cases own : x = dev
      · simp [own] at active
      · have was_active : s.activated x = true := by simpa [own] using active
        have above : p ≠ dev := by
          rintro rfl
          exact children x ((inv.child p x).2 ⟨inv.active_bound x was_active,parent⟩) was_active
        simpa [above] using inv.active_parent x p was_active parent
  · by_cases own : x = dev
    · exact own ▸ .self
    · rw [is] at stopped
      simp [own,active] at stopped

theorem remove_self_calm (children : ∀ c ∈ s.child_head dev, ¬ s.activated c = true) (flags : ℕ) :
    RemoveCall tree dev flags s (remove_self env dev s) := by
  have asked : Quiet s (ask_all env dev [.pre_remove,.remove] s).1 := ask_all_quiet _ _ _
  have accepted : (ask_all env dev [.pre_remove,.remove] s).2 ≠ - EKEYREJECTED := ask_all_accepted _ _ _
  simp only [remove_self]
  split_ifs with fails
  · exact ⟨removes_of_quiet asked,fun is => absurd is fails,fun is => absurd is accepted⟩
  refine ⟨?_,fun _ => by simp [ask,device_free],fun is => absurd is (ask_accepted _ _ _)⟩
  apply removes_trans (removes_of_quiet asked)
  apply stop_removes
  · exact ⟨rfl,rfl,rfl⟩
  · rfl
  · rfl
  · rw [asked.child_head,asked.activated]
    exact children

theorem remove_calm (depth : ℕ) : ∀ dev flags s, RemoveCall tree dev flags s (device_remove env tree depth dev flags s) := by
  have zero_accepted : (0 : ℤ) ≠ - EKEYREJECTED := by decide
  induction depth with
  | zero =>
    intro dev flags s
    have failed : - ENOMEM ≠ 0 := by decide
    have accepted : - ENOMEM ≠ - EKEYREJECTED := by decide
    rw [device_remove]
    split_ifs with active
    · exact ⟨removes_of_quiet (quiet_refl s),fun is => absurd is failed,fun is => absurd is accepted⟩
    · exact ⟨removes_of_quiet (quiet_refl s),fun _ => active,fun is => absurd is zero_accepted⟩
  | succ depth below =>
    intro dev flags s
    rw [device_remove]
    by_cases active : s.activated dev = true
    · rw [if_neg (not_not.2 active)]
      have asked : Quiet s (ask env .pre_remove_event dev s).1 := ask_quiet _ _ _
      have accepted : (ask env .pre_remove_event dev s).2 ≠ - EKEYREJECTED := ask_accepted _ _ _
      simp only
      generalize ask env .pre_remove_event dev s = notified at asked accepted
      by_cases refused : notified.2 = 0
      · rw [if_neg (not_not.2 refused)]
        generalize is_cret : flags_remove flags (tree.drv_flags dev) = cret
        obtain ⟨loop,stopped,_,rejected⟩ := chld_remove_calls
          (fun pos t => below pos (if cret ≠ 0 then flags else without_active flags) t) (notified.1.child_head dev) 0 notified.1
        generalize chld_remove_loop
          (fun pos => device_remove env tree depth pos (if cret ≠ 0 then flags else without_active flags))
          (notified.1.child_head dev) 0 notified.1 = looped at loop stopped rejected
        have removes : Removes tree (· = dev) s looped.1 := by
          apply removes_trans (removes_of_quiet asked)
          exact removes_mono (fun inv d is => ⟨dev,rfl,.child ((inv.child dev d).1 is).2 .self⟩) loop
        have no_rejection : looped.2 ≠ - EKEYREJECTED := fun is => zero_accepted (rejected is)
        by_cases loop_fails : looped.2 = 0
        · rw [if_neg (fun both => both.1 loop_fails)]
          by_cases goes : cret = 0
          · rw [if_neg (not_not.2 goes)]
            have clear : ∀ c ∈ looped.1.child_head dev, ¬ looped.1.activated c = true := by
              rw [loop.child_head]
              exact stopped (by rw [if_neg (not_not.2 goes)]; exact without_active_clear flags) loop_fails
            have last : RemoveCall tree dev flags looped.1 (remove_self env dev looped.1) := remove_self_calm clear flags
            exact ⟨removes_trans removes last.removes,last.stopped,last.rejected⟩
          · rw [if_pos goes]
            exact ⟨removes,fun is => absurd is goes,fun is => flags_remove_rejected (is_cret.trans is)⟩
        · rw [if_pos ⟨loop_fails,no_rejection⟩]
          exact ⟨removes,fun is => absurd is loop_fails,fun is => absurd is no_rejection⟩
      · rw [if_pos refused]
        exact ⟨removes_of_quiet asked,fun is => absurd is refused,fun is => absurd is accepted⟩
    · rw [if_pos active]
      exact ⟨removes_of_quiet (quiet_refl s),fun _ => active,fun is => absurd is zero_accepted⟩
end

/-! ## Probing -/

section
variable {env : Env} {tree : Tree}

/-- The lists stay, and a device that was stopped above an active child is not forgotten. -/
structure Frame (s s' : State) : Prop extends Lists s s' where
  orphaned : s'.orphaned = false → s.orphaned = false

theorem frame_of_quiet (quiet : Quiet s s') : Frame s s' := ⟨quiet.toLists,fun none => quiet.orphaned ▸ none⟩

theorem frame_trans (first : Frame s t) (second : Frame t u) : Frame s u :=
  ⟨lists_trans first.toLists second.toLists,fun none => first.orphaned (second.orphaned none)⟩

theorem fail_frame (frame : Frame s t) : Frame s (fail dev t) := by
  refine ⟨⟨frame.bound,frame.child_head,frame.dev_head⟩,fun none => frame.orphaned ?_⟩
  change (t.orphaned || (t.child_head dev).any t.activated) = false at none
  exact (Bool.or_eq_false_iff.1 none).1

theorem remove_frame {depth dev flags : ℕ} (frame : Frame s t) :
    Frame s (device_remove env tree depth dev flags t).1 := by
  have call := (@remove_calm env tree depth dev flags t).removes
  exact frame_trans frame ⟨call.toLists,fun none => call.orphaned ▸ none⟩

theorem ask_with_children_frame {probe : ℕ → State → State × ℤ} (frames : ∀ child s, Frame s (probe child s).1) (hook : Hook)
    (dev : ℕ) (s : State) : Frame s (ask_with_children env probe hook dev s).1 := by
  have calls : ∀ (children : List ℕ) (t : State), Frame s t →
      Frame s (children.foldl (fun s child => if child ∈ s.child_head dev then (probe child s).1 else s) t) := by
    intro children
    induction children with
    | nil => exact fun t frame => frame
    | cons child rest following =>
      intro t frame
      rw [foldl_cons]
      apply following
      split_ifs
      · exact frame_trans frame (frames child t)
      · exact frame
  exact calls _ _ ⟨⟨rfl,rfl,rfl⟩,id⟩

theorem probe_self_frame {probe : ℕ → State → State × ℤ} (frames : ∀ child s, Frame s (probe child s).1) (depth dev : ℕ)
    (s : State) : Frame s (probe_self env probe (device_remove env tree depth) dev s).1 := by
  have start : Frame s { s with activated := update s.activated dev true } := ⟨⟨rfl,rfl,rfl⟩,id⟩
  have before := frame_trans start (frame_of_quiet (@ask_all_quiet env dev before_probe _))
  have probed := frame_trans before (@ask_with_children_frame env _ frames .probe dev _)
  have child_probed := frame_trans probed (frame_of_quiet (@ask_quiet env .child_post_probe dev _))
  have post_probed := frame_trans child_probed (@ask_with_children_frame env _ frames .post_probe dev _)
  have notified := frame_trans post_probed (frame_of_quiet (@ask_quiet env .post_probe_event dev _))
  simp only [probe_self]
  split_ifs
  · exact fail_frame before
  · exact fail_frame probed
  · exact fail_frame (remove_frame child_probed)
  · exact fail_frame (remove_frame post_probed)
  · exact fail_frame (remove_frame notified)
  · exact notified

theorem probe_frame (depth : ℕ) : ∀ dev s, Frame s (device_probe env tree depth dev s).1 := by
  induction depth with
  | zero =>
    intro dev s
    rw [device_probe]
    split_ifs <;> exact frame_of_quiet (quiet_refl s)
  | succ depth below =>
    intro dev s
    rw [device_probe]
    split_ifs with active
    · exact frame_of_quiet (quiet_refl s)
    have asked := frame_of_quiet (@ask_quiet env .pre_probe_event dev s)
    have planned := frame_trans asked (frame_of_quiet (@of_to_plat_quiet env tree depth dev _))
    simp only
    split_ifs
    · exact asked
    · exact fail_frame planned
    · cases tree.parent dev with
      | none => exact frame_trans planned (probe_self_frame below depth dev _)
      | some parent =>
        have up := frame_trans planned (below parent _)
        simp only
        split_ifs
        · exact fail_frame up
        · exact up
        · exact frame_trans up (probe_self_frame below depth dev _)

/-- What starting devices does: as long as no device is stopped above an active child, what is
    active stays active and the invariant is kept. -/
structure Grows (tree : Tree) (s s' : State) : Prop extends Frame s s' where
  calm : s'.orphaned = false → Inv tree s → Inv tree s'
  active : s'.orphaned = false → Inv tree s → ∀ x, s.activated x = true → s'.activated x = true

theorem grows_of_quiet (quiet : Quiet s s') : Grows tree s s' := by
  refine ⟨frame_of_quiet quiet,fun _ inv => inv_of_quiet inv quiet,fun _ _ x active => ?_⟩
  rwa [quiet.activated]

theorem grows_trans (first : Grows tree s t) (second : Grows tree t u) : Grows tree s u := by
  refine ⟨frame_trans first.toFrame second.toFrame,fun none inv => ?_,fun none inv x active => ?_⟩
  · exact second.calm none (first.calm (second.orphaned none) inv)
  · have middle := second.orphaned none
    exact second.active none (first.calm middle inv) x (first.active middle inv x active)

theorem fail_grows (inactive : ¬ s.activated dev = true) (frame : Frame s t)
    (calm : t.orphaned = false → Inv tree s → Inv tree t)
    (active : t.orphaned = false → Inv tree s → ∀ x, x ≠ dev → s.activated x = true → t.activated x = true) :
    Grows tree s (fail dev t) := by
  have split : (fail dev t).orphaned = false → t.orphaned = false ∧ ∀ c ∈ t.child_head dev, ¬ t.activated c = true := by
    intro none
    change (t.orphaned || (t.child_head dev).any t.activated) = false at none
    simpa using none
  refine ⟨fail_frame frame,fun none inv => ?_,fun none inv x was_active => ?_⟩
  · obtain ⟨none,children⟩ := split none
    have stop : Removes tree (· = dev) t { fail dev t with orphaned := t.orphaned } :=
      stop_removes ⟨rfl,rfl,rfl⟩ rfl rfl children
    have stopped := stop.calm (calm none inv)
    exact inv_of_lists stopped ⟨rfl,rfl,rfl⟩ stopped.active_bound stopped.active_parent
  · obtain ⟨none,_⟩ := split none
    have other : x ≠ dev := by
      rintro rfl
      exact inactive was_active
    have still := active none inv x other was_active
    change update t.activated dev false x = true
    rwa [update_of_ne other]

theorem fail_after (inactive : ¬ s.activated dev = true) (grows : Grows tree s t) :
    Grows tree s (fail dev t) :=
  fail_grows inactive grows.toFrame grows.calm (fun none inv x _ => grows.active none inv x)

theorem fail_uclass_after {depth dev flags : ℕ} (inactive : ¬ s.activated dev = true) (grows : Grows tree s t) :
    Grows tree s (fail dev (device_remove env tree depth dev flags t).1) := by
  have call := (@remove_calm env tree depth dev flags t).removes
  generalize (device_remove env tree depth dev flags t).1 = u at call
  apply fail_grows inactive
  · exact frame_trans grows.toFrame ⟨call.toLists,fun none => call.orphaned ▸ none⟩
  · intro none inv
    exact call.calm (grows.calm (call.orphaned ▸ none) inv)
  · intro none inv x _ was_active
    have middle : t.orphaned = false := call.orphaned ▸ none
    by_contra stopped
    obtain ⟨d,rfl,below⟩ := call.below (grows.calm middle inv) x (grows.active middle inv x was_active) stopped
    exact inactive (below_active inv below was_active)

theorem grows_of_inv (frame : Frame s s') (grows : Inv tree s → Grows tree s s') : Grows tree s s' :=
  ⟨frame,fun none inv => (grows inv).calm none inv,fun none inv => (grows inv).active none inv⟩

/-- A call of `device_probe` for a bound device. -/
structure ProbeCall (tree : Tree) (dev : ℕ) (s : State) (r : State × ℤ) : Prop where
  grows : Grows tree s r.1
  started : r.1.orphaned = false → Inv tree s → r.2 = 0 → r.1.activated dev = true

theorem ask_with_children_grows {probe : ℕ → State → State × ℤ} (frames : ∀ child s, Frame s (probe child s).1)
    (calls : ∀ child s, s.bound child = true → Grows tree s (probe child s).1) (hook : Hook) (dev : ℕ) (s : State) :
    Grows tree s (ask_with_children env probe hook dev s).1 := by
  have each : ∀ (children : List ℕ) (t : State), Grows tree s t →
      Grows tree s (children.foldl (fun s child => if child ∈ s.child_head dev then (probe child s).1 else s) t) := by
    intro children
    induction children with
    | nil => exact fun t grows => grows
    | cons child rest following =>
      intro t grows
      rw [foldl_cons]
      apply following
      split_ifs with is_child
      · apply grows_trans grows
        apply grows_of_inv (frames child t)
        intro inv
        exact calls child t ((inv.child dev child).1 is_child).1
      · exact grows
  exact each _ _ (grows_of_quiet ⟨⟨rfl,rfl,rfl⟩,rfl,rfl⟩)

theorem start_grows (bound : s.bound dev = true)
    (parent : ∀ p, tree.parent dev = some p → s.activated p = true) :
    Grows tree s { s with activated := update s.activated dev true } := by
  refine ⟨⟨⟨rfl,rfl,rfl⟩,id⟩,fun _ inv => ?_,fun _ _ x active => ?_⟩
  · have same : Lists s { s with activated := update s.activated dev true } := ⟨rfl,rfl,rfl⟩
    apply inv_of_lists inv same
    · intro x active
      by_cases own : x = dev
      · rwa [own]
      · exact inv.active_bound x (by simpa [own] using active)
    · intro x p active above
      change update s.activated dev true p = true
      by_cases own : p = dev
      · simp [own]
      · rw [update_of_ne own]
        by_cases self : x = dev
        · exact parent p (self ▸ above)
        · exact inv.active_parent x p (by simpa [self] using active) above
  · change update s.activated dev true x = true
    by_cases own : x = dev
    · simp [own]
    · rwa [update_of_ne own]

theorem probe_self_calm {probe : ℕ → State → State × ℤ} (frames : ∀ child s, Frame s (probe child s).1)
    (calls : ∀ child s, s.bound child = true → Grows tree s (probe child s).1) (depth : ℕ)
    (bound : s.bound dev = true) (inactive : ¬ s.activated dev = true)
    (parent : ∀ p, tree.parent dev = some p → s.activated p = true) :
    ProbeCall tree dev s (probe_self env probe (device_remove env tree depth) dev s) := by
  have start := start_grows bound parent
  have before : Grows tree { s with activated := update s.activated dev true }
      (ask_all env dev before_probe { s with activated := update s.activated dev true }).1 :=
    grows_of_quiet (ask_all_quiet _ _ _)
  have probed := grows_trans before (@ask_with_children_grows env tree _ frames calls .probe dev _)
  have child_probed := grows_trans probed (grows_of_quiet (@ask_quiet env .child_post_probe dev _))
  have post_probed := grows_trans child_probed (@ask_with_children_grows env tree _ frames calls .post_probe dev _)
  have notified := grows_trans post_probed (grows_of_quiet (@ask_quiet env .post_probe_event dev _))
  simp only [probe_self]
  split_ifs with before_fails probe_fails child_fails post_fails event_fails
  · exact ⟨fail_after inactive (grows_trans start before),fun _ _ is => absurd is before_fails⟩
  · exact ⟨fail_after inactive (grows_trans start probed),fun _ _ is => absurd is probe_fails⟩
  · exact ⟨fail_uclass_after inactive (grows_trans start child_probed),fun _ _ is => absurd is child_fails⟩
  · exact ⟨fail_uclass_after inactive (grows_trans start post_probed),fun _ _ is => absurd is post_fails⟩
  · exact ⟨fail_uclass_after inactive (grows_trans start notified),fun _ _ is => absurd is event_fails⟩
  · refine ⟨grows_trans start notified,fun none inv _ => ?_⟩
    exact notified.active none (start.calm (notified.orphaned none) inv) dev (by simp)

/-- `device_probe` starts a device after its parent. The induction is on the depth. -/
theorem probe_calm : ∀ dev s, s.bound dev = true → ProbeCall tree dev s (device_probe env tree depth dev s) := by
  induction depth with
  | zero =>
    intro dev s _
    have failed : - ENOMEM ≠ 0 := by decide
    rw [device_probe]
    split_ifs with active
    · exact ⟨grows_of_quiet (quiet_refl s),fun _ _ _ => active⟩
    · exact ⟨grows_of_quiet (quiet_refl s),fun _ _ is => absurd is failed⟩
  | succ depth below =>
    intro dev s bound
    rw [device_probe]
    split_ifs with active
    · exact ⟨grows_of_quiet (quiet_refl s),fun _ _ _ => active⟩
    have asked : Quiet s (ask env .pre_probe_event dev s).1 := ask_quiet _ _ _
    simp only
    generalize ask env .pre_probe_event dev s = first at asked
    have planned : Quiet s (device_of_to_plat env tree depth dev first.1).1 :=
      quiet_trans asked (of_to_plat_quiet depth dev _)
    generalize device_of_to_plat env tree depth dev first.1 = second at planned
    have still : ¬ second.1.activated dev = true := by rwa [planned.activated]
    have second_bound : second.1.bound dev = true := by rwa [planned.bound]
    have start : Grows tree s second.1 := grows_of_quiet planned
    have calls : ∀ child s, s.bound child = true → Grows tree s (device_probe env tree depth child s).1 :=
      fun child t child_bound => (below child t child_bound).grows
    split_ifs with refused unplanned
    · exact ⟨grows_of_quiet asked,fun _ _ is => absurd is refused⟩
    · exact ⟨fail_after active start,fun _ _ is => absurd is unplanned⟩
    cases above : tree.parent dev with
    | none =>
      have last : ProbeCall tree dev second.1 (probe_self env (device_probe env tree depth)
          (device_remove env tree depth) dev second.1) :=
        probe_self_calm (probe_frame depth) calls depth second_bound still (fun p is => by rw [above] at is; cases is)
      exact ⟨grows_trans start last.grows,fun none inv => last.started none (start.calm (last.grows.orphaned none) inv)⟩
    | some parent =>
      have frame := @probe_frame env tree depth parent second.1
      have up : Grows tree second.1 (device_probe env tree depth parent second.1).1 :=
        grows_of_inv frame (fun inv => calls parent second.1 (inv.parent_bound dev parent second_bound above))
      have parent_started : (device_probe env tree depth parent second.1).1.orphaned = false → Inv tree second.1 →
          (device_probe env tree depth parent second.1).2 = 0 →
          (device_probe env tree depth parent second.1).1.activated parent = true := fun none inv =>
        (below parent second.1 (inv.parent_bound dev parent second_bound above)).started none inv
      simp only
      generalize device_probe env tree depth parent second.1 = third at frame up parent_started
      split_ifs with parent_fails started
      · exact ⟨fail_after active (grows_trans start up),fun _ _ is => absurd is parent_fails⟩
      · exact ⟨grows_trans start up,fun _ _ _ => started⟩
      have third_bound : third.1.bound dev = true := by rwa [up.bound]
      have last (ready : third.1.activated parent = true) : ProbeCall tree dev third.1
          (probe_self env (device_probe env tree depth) (device_remove env tree depth) dev third.1) :=
        probe_self_calm (probe_frame depth) calls depth third_bound started (fun p is => by
          rw [above] at is
          exact Option.some.inj is ▸ ready)
      have rest := @probe_self_frame env tree _ (@probe_frame env tree depth) depth dev third.1
      have ready (none : third.1.orphaned = false) (inv : Inv tree s) : third.1.activated parent = true :=
        parent_started none (start.calm (up.orphaned none) inv) (not_not.1 parent_fails)
      have both := grows_trans start up
      refine ⟨⟨frame_trans both.toFrame rest,fun none inv => ?_,fun none inv x was_active => ?_⟩,fun none inv => ?_⟩
      · have middle := rest.orphaned none
        exact (last (ready middle inv)).grows.calm none (both.calm middle inv)
      · have middle := rest.orphaned none
        exact (last (ready middle inv)).grows.active none (both.calm middle inv) x (both.active middle inv x was_active)
      · have middle := rest.orphaned none
        exact (last (ready middle inv)).started none (both.calm middle inv)
end

/-! ## Unbinding -/

section
variable {env : Env} {tree : Tree}

/-- What unbinding does: nothing is started or stopped, and devices only go. -/
structure Unbinds (tree : Tree) (s s' : State) : Prop where
  activated : s'.activated = s.activated
  orphaned : s'.orphaned = s.orphaned
  fewer : ∀ x, s'.bound x = true → s.bound x = true
  calm : Inv tree s → Inv tree s'

theorem unbinds_of_quiet (quiet : Quiet s s') : Unbinds tree s s' := by
  refine ⟨quiet.activated,quiet.orphaned,fun x bound => ?_,fun inv => inv_of_quiet inv quiet⟩
  rwa [quiet.bound] at bound

theorem unbinds_trans (first : Unbinds tree s t) (second : Unbinds tree t u) : Unbinds tree s u :=
  ⟨second.activated.trans first.activated,second.orphaned.trans first.orphaned,fun x bound => first.fewer x (second.fewer x bound),
    fun inv => second.calm (first.calm inv)⟩

structure UnbindCall (tree : Tree) (dev : ℕ) (s : State) (r : State × ℤ) : Prop where
  unbinds : Unbinds tree s r.1
  gone : r.2 = 0 → ¬ r.1.bound dev = true

theorem chld_unbind_calls {unbind : ℕ → State → State × ℤ} (calls : ∀ dev s, UnbindCall tree dev s (unbind dev s))
    (children : List ℕ) (saved_ret : ℤ) (s : State) : Unbinds tree s (chld_unbind_loop unbind children saved_ret s).1 ∧
      ((chld_unbind_loop unbind children saved_ret s).2 = 0 → saved_ret = 0 ∧
        ∀ c ∈ children, ¬ (chld_unbind_loop unbind children saved_ret s).1.bound c = true) := by
  induction children generalizing saved_ret s with
  | nil => exact ⟨unbinds_of_quiet (quiet_refl s),fun is => ⟨is,fun c mem => absurd mem not_mem_nil⟩⟩
  | cons pos rest following =>
    have call := calls pos s
    rw [chld_unbind_loop]
    obtain ⟨loop,zero⟩ := following (if (unbind pos s).2 ≠ 0 ∧ saved_ret = 0 then (unbind pos s).2 else saved_ret) (unbind pos s).1
    refine ⟨unbinds_trans call.unbinds loop,fun is => ?_⟩
    obtain ⟨none_saved,gone⟩ := zero is
    have returned : (unbind pos s).2 = 0 ∧ saved_ret = 0 := by
      split_ifs at none_saved with first
      · exact absurd none_saved first.1
      · exact ⟨not_not.1 (fun nonzero => first ⟨nonzero,none_saved⟩),none_saved⟩
    refine ⟨returned.2,fun c mem => ?_⟩
    rcases mem_cons.1 mem with rfl | mem
    · exact fun bound => call.gone returned.1 (loop.fewer c bound)
    · exact gone c mem

theorem release_unbinds (inactive : ¬ s.activated dev = true)
    (childless : ∀ c ∈ s.child_head dev, ¬ s.bound c = true) : Unbinds tree s (release tree dev s) := by
  have still {x : ℕ} : (release tree dev s).bound x = true ↔ s.bound x = true ∧ x ≠ dev := by
    change update s.bound dev false x = true ↔ _
    by_cases own : x = dev
    · simp [own]
    · simp [own]
  have children (inv : Inv tree s) (d : ℕ) : (release tree dev s).child_head d = (s.child_head d).erase dev := by
    unfold release
    cases above : tree.parent dev with
    | none =>
      refine (erase_of_not_mem fun mem => ?_).symm
      rw [((inv.child d dev).1 mem).2] at above
      cases above
    | some parent =>
      change update s.child_head parent ((s.child_head parent).erase dev) d = _
      by_cases own : d = parent
      · simp [own]
      · rw [update_of_ne own]
        refine (erase_of_not_mem fun mem => own ?_).symm
        rw [((inv.child d dev).1 mem).2] at above
        exact Option.some.inj above
  have devices (inv : Inv tree s) (uc : ℕ) : (release tree dev s).dev_head uc = (s.dev_head uc).erase dev := by
    change update s.dev_head (tree.uclass dev) ((s.dev_head (tree.uclass dev)).erase dev) uc = _
    by_cases own : uc = tree.uclass dev
    · simp [own]
    · rw [update_of_ne own]
      refine (erase_of_not_mem fun mem => own ?_).symm
      exact ((inv.device uc dev).1 mem).2.symm
  refine ⟨rfl,rfl,fun x bound => (still.1 bound).1,fun inv => ⟨?_,?_,?_,?_,?_,?_,inv.active_parent⟩⟩
  · intro d x
    rw [children inv,(inv.child_once d).mem_erase_iff,inv.child,still]
    tauto
  · intro d
    rw [children inv]
    exact (inv.child_once d).erase dev
  · intro uc x
    rw [devices inv,(inv.device_once uc).mem_erase_iff,inv.device,still]
    tauto
  · intro uc
    rw [devices inv]
    exact (inv.device_once uc).erase dev
  · intro x p bound parent
    have was_bound := (still.1 bound).1
    refine still.2 ⟨inv.parent_bound x p was_bound parent,?_⟩
    rintro rfl
    exact childless x ((inv.child p x).2 ⟨was_bound,parent⟩) was_bound
  · intro x active
    refine still.2 ⟨inv.active_bound x active,?_⟩
    rintro rfl
    exact inactive active

theorem unbind_calm : ∀ dev s, UnbindCall tree dev s (device_unbind env tree depth dev s) := by
  have invalid : - EINVAL ≠ 0 := by decide
  induction depth with
  | zero =>
    intro dev s
    have no_memory : - ENOMEM ≠ 0 := by decide
    rw [device_unbind]
    split_ifs
    · exact ⟨unbinds_of_quiet (quiet_refl s),fun is => absurd is invalid⟩
    · exact ⟨unbinds_of_quiet (quiet_refl s),fun is => absurd is no_memory⟩
    · exact ⟨unbinds_of_quiet (quiet_refl s),fun is => absurd is invalid⟩
  | succ depth below =>
    intro dev s
    rw [device_unbind]
    by_cases active : s.activated dev = true
    · rw [if_pos active]
      exact ⟨unbinds_of_quiet (quiet_refl s),fun is => absurd is invalid⟩
    rw [if_neg active]
    by_cases bound : s.bound dev = true
    · rw [if_neg (not_not.2 bound)]
      have asked : Unbinds tree s (ask env .unbind dev s).1 := unbinds_of_quiet (ask_quiet _ _ _)
      simp only
      generalize ask env .unbind dev s = first at asked
      obtain ⟨loop,zero⟩ := chld_unbind_calls below (first.1.child_head dev) 0 first.1
      generalize chld_unbind_loop (device_unbind env tree depth) (first.1.child_head dev) 0 first.1 = second at loop zero
      have second_asked : Quiet second.1 (ask env .pre_unbind dev second.1).1 := ask_quiet _ _ _
      generalize ask env .pre_unbind dev second.1 = third at second_asked
      have so_far : Unbinds tree s second.1 := unbinds_trans asked loop
      have all : Unbinds tree s third.1 := unbinds_trans so_far (unbinds_of_quiet second_asked)
      split_ifs with first_fails second_fails third_fails
      · exact ⟨asked,fun is => absurd is first_fails⟩
      · exact ⟨so_far,fun is => absurd is second_fails⟩
      · exact ⟨all,fun is => absurd is third_fails⟩
      refine ⟨?_,fun _ => by simp [release]⟩
      have children (inv : Inv tree s) : ∀ c ∈ third.1.child_head dev, ¬ third.1.bound c = true := by
        intro c mem
        rw [second_asked.child_head] at mem
        have child := ((so_far.calm inv).child dev c).1 mem
        have was_child := ((asked.calm inv).child dev c).2 ⟨loop.fewer c child.1,child.2⟩
        exact absurd child.1 ((zero (not_not.1 second_fails)).2 c was_child)
      have released : Inv tree s → Inv tree (release tree dev third.1) := fun inv =>
        (release_unbinds (by rwa [all.activated]) (children inv)).calm (all.calm inv)
      refine ⟨all.activated,all.orphaned,fun x still => all.fewer x ?_,released⟩
      by_cases own : x = dev
      · simp [release,own] at still
      · simpa [release,own] using still
    · rw [if_pos bound]
      exact ⟨unbinds_of_quiet (quiet_refl s),fun is => absurd is invalid⟩
end

/-! ## Runs -/

inductive Ancestor (tree : Tree) : ℕ → ℕ → Prop
  | parent {p x : ℕ} : tree.parent x = some p → Ancestor tree p x
  | above {a p x : ℕ} : tree.parent x = some p → Ancestor tree a p → Ancestor tree a x

/-- Active devices have active ancestors, and a bound device is once in each of its lists. -/
structure Sound (tree : Tree) (s : State) : Prop where
  ancestors : ∀ x a, s.activated x = true → Ancestor tree a x → s.activated a = true
  child : ∀ x p, s.bound x = true → tree.parent x = some p → (s.child_head p).count x = 1
  device : ∀ x, s.bound x = true → (s.dev_head (tree.uclass x)).count x = 1

section
variable {env : Env} {tree : Tree}

theorem sound_of_inv (inv : Inv tree s) : Sound tree s := by
  refine ⟨fun x a active above => ?_,fun x p bound parent => ?_,fun x bound => ?_⟩
  · induction above with
    | parent is => exact inv.active_parent _ _ active is
    | above is _ rest => exact rest (inv.active_parent _ _ active is)
  · exact count_eq_one_of_mem (inv.child_once p) ((inv.child p x).2 ⟨bound,parent⟩)
  · exact count_eq_one_of_mem (inv.device_once _) ((inv.device _ x).2 ⟨bound,rfl⟩)

/-- No `device_probe` of the step stops its device at the label `fail` while a child is active. -/
def Orderly (env : Env) (tree : Tree) (depth : ℕ) (s : State) (op : Op) : Prop := (step env tree depth s op).orphaned = false

instance (depth : ℕ) (s : State) (op : Op) : Decidable (Orderly env tree depth s op) := inferInstanceAs (Decidable (_ = _))

theorem step_calm (s : State) (op : Op) (inv : Inv tree s) (orderly : Orderly env tree depth s op) :
    Inv tree (step env tree depth s op) := by
  have start : Inv tree { s with orphaned := false } := inv_of_lists inv ⟨rfl,rfl,rfl⟩ inv.active_bound inv.active_parent
  unfold Orderly step at orderly
  unfold step
  simp only at orderly ⊢
  split_ifs at orderly ⊢ with bound
  · cases op with
    | device_probe dev => exact (probe_calm depth dev { s with orphaned := false } bound).grows.calm orderly start
    | device_remove dev flags => exact (remove_calm depth dev flags { s with orphaned := false }).removes.calm start
    | device_unbind dev => exact (unbind_calm depth dev { s with orphaned := false }).unbinds.calm start
  · exact start

/-- A bus with one device on it; both are in the same uclass. -/
def bus : Tree := ⟨fun d => if d = 1 then some 0 else none,fun _ => 0,fun _ => 0⟩

/-- The hook `probe` of the bus starts the device and then fails. -/
def failing_probe : Env where
  ret := fun _ hook dev => if hook = .probe ∧ dev = 0 then - EINVAL else 0
  calls := fun _ hook dev => if hook = .probe ∧ dev = 0 then [1] else []
  accepted := by
    intro time hook dev
    split_ifs
    · decide
    · decide

def both_bound : State where
  bound := fun d => d = 0 ∨ d = 1
  activated := fun _ => false
  plat_valid := fun _ => false
  child_head := fun d => if d = 0 then [1] else []
  dev_head := fun uc => if uc = 0 then [0,1] else []
  time := 0
  orphaned := false

theorem both_bound_inv : Inv bus both_bound := by
  refine ⟨fun d x => ?_,fun d => ?_,fun uc x => ?_,fun uc => ?_,fun x p _ parent => ?_,fun x active => ?_,fun x p active => ?_⟩
  · by_cases top : d = 0
    · by_cases one : x = 1 <;> simp [both_bound,bus,top,one]
    · by_cases one : x = 1 <;> simp [both_bound,bus,top,one]
      omega
  · by_cases top : d = 0 <;> simp [both_bound,top]
  · by_cases first : uc = 0
    · simp [both_bound,bus,first]
    · simp [both_bound,bus,first]
      omega
  · by_cases first : uc = 0 <;> simp [both_bound,first]
  · simp only [bus] at parent
    split_ifs at parent
    have is := Option.some.inj parent
    simp [both_bound,← is]
  · cases active
  · cases active

end

end UBoot.DeviceProbe
