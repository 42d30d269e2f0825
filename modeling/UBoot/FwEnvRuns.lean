import UBoot.EnvRedund
import UBoot.FwEnv

/-!
Two writers of one redundant environment, U-Boot and the tools of `tools/env/fw_env.c`, over whole
runs of boots, saves and saves that are cut. The copies are modelled as whole copies: an operation
on their sectors that is not the last one leaves a copy that fails its checksum.

The tools take the copy that U-Boot takes in every state after a completed save
(`fw_env_open_found`), but they do not escape the backslashes of a value.
-/
namespace UBoot.FwEnvRuns
open UBoot.Runs UBoot.Env UBoot.Hashtable UBoot.EnvText UBoot.FwEnv List Function

def ENV_REDUND_OBSOLETE : UInt8 := 0
def ENV_REDUND_ACTIVE : UInt8 := 1

/-- What the copies are on: an SPI NOR flash, where the tools use `FLAG_BOOLEAN`, or two UBI
    volumes, where they use `FLAG_INCREMENTAL`. -/
inductive Medium where
  | nor
  | ubi
deriving DecidableEq

/-- The copies: `false` is the first one, `true` the redundant one. -/
abbrev Flash := Bool → EnvT

inductive Op where
  /-- The copy is erased or written in part. -/
  | spoil (dev : Bool) (left : EnvT)
  | write (dev : Bool) (env : EnvT)
  /-- The flag byte of the copy is cleared. -/
  | obsolete (dev : Bool)

def operate (flash : Flash) : Op → Flash
  | .spoil dev left => Function.update flash dev left
  | .write dev env => Function.update flash dev env
  | .obsolete dev => Function.update flash dev { flash dev with flags := ENV_REDUND_OBSOLETE }

/-- The operations that write a copy: on UBI an update of the volume, on NOR also the flag of
    the other copy. -/
def operations (medium : Medium) (target : Bool) (left env : EnvT) : List Op :=
  match medium with
  | .nor => [.spoil target left,.write target env,.obsolete !target]
  | .ubi => [.spoil target left,.write target env]

section
variable (sum : List UInt8 → UInt32) (medium : Medium) (size : ℕ)

/-- The place of the current environment, as `env_valid` has it. -/
def current (gd : Gd) : Bool := gd.env_valid ≠ .ENV_VALID

def block : Export → Option (List UInt8)
  | .block bytes => some bytes
  | _ => none

/-- The copy that a save writes, and `gd`. On NOR it is marked as active in place of its
    serial. -/
def new_copy (gd : Gd) (htab : Htab) : Option EnvT × Gd :=
  match env_export sum gd (block (hexport_r htab NUL false size)) with
  | (none,gd) => (none,gd)
  | (some env_new,gd) =>
    match medium with
    | .nor => (some { env_new with flags := ENV_REDUND_ACTIVE },gd)
    | .ubi => (some env_new,gd)

/-- The copy that is selected by its flag where both checksums are right. -/
def select (flag0 flag1 : UInt8) : Bool :=
  match medium with
  | .nor =>
    if flag0 = ENV_REDUND_ACTIVE ∧ flag1 = ENV_REDUND_OBSOLETE then false
    else if flag0 = ENV_REDUND_OBSOLETE ∧ flag1 = ENV_REDUND_ACTIVE then true
    else if flag0 = flag1 then false
    else if flag0 = 0xff then false
    else if flag1 = 0xff then true
    else false
  | .ubi =>
    if flag0 = 255 ∧ flag1 = 0 then true
    else if flag1 = 255 ∧ flag0 = 0 ∨ flag0 ≥ flag1 then false
    else true

structure Opened where
  dev_current : Bool
  flags : UInt8
  environment : Environment

def opened (flash : Flash) (dirty dev : Bool) : Opened := ⟨dev,(flash dev).flags,⟨(flash dev).data,dirty⟩⟩

/-- The default environment is copied over the start of the first copy. -/
def fw_env_open (default_environment : List UInt8) (flash : Flash) : Opened :=
  let crc0_ok := crc_ok sum (flash false)
  let crc1_ok := crc_ok sum (flash true)
  let dirty := (flash false).data ≠ (flash true).data ∨ !crc0_ok ∨ !crc1_ok
  if crc0_ok ∧ !crc1_ok then opened flash dirty false
  else if !crc0_ok ∧ crc1_ok then opened flash dirty true
  else if !crc0_ok ∧ !crc1_ok then
    ⟨false,(flash false).flags,
      ⟨default_environment ++ (flash false).data.drop default_environment.length,true⟩⟩
  else opened flash dirty (select medium (flash false).flags (flash true).flags)

/-- The copy that `fw_env_flush` and `flash_write` write. -/
def flushed (o : Opened) (data : List UInt8) : EnvT :=
  match medium with
  | .nor => ⟨sum data,ENV_REDUND_ACTIVE,data⟩
  | .ubi => ⟨sum data,o.flags+1,data⟩

/-! ## Runs -/

abbrev Left := { env : EnvT // crc_ok sum env = false ∧ env.data.length = size }

/-- A save is cut after so many of its operations, or it completes. -/
inductive Event where
  | boot
  | env_save (htab : Htab) (left : Left sum size) (done : ℕ)
  | fw_setenv (reqs : List Request) (left : Left sum size) (done : ℕ)

/-- The copies, the state of U-Boot if it runs, and whether a save has completed. -/
structure Board where
  flash : Flash
  gd : Option Gd
  completed : Bool

def operated (flash : Flash) (ops : List Op) : Flash := ops.foldl operate flash

/-- The board after a save whose writer is left in state `gd` where it completes, and does not
    run any more where it is cut. -/
def saved (b : Board) (gd : Option Gd) (ops : List Op) (done : ℕ) : Board :=
  if ops.length ≤ done then ⟨operated b.flash ops,gd,true⟩
  else ⟨operated b.flash (ops.take done),none,b.completed⟩

variable (upgrade : Bool) (default_environment : List UInt8)

/-- U-Boot does not run while the tools do. Without a change there is nothing to save. -/
def step (b : Board) : Event sum size → Board
  | .boot =>
    { b with gd := some (env_import_redund sum upgrade Gd.reset (b.flash false) false (b.flash true) false).2 }
  | .env_save htab left done =>
    match b.gd with
    | none => b
    | some gd =>
      match new_copy sum medium size gd htab with
      | (none,gd) => { b with gd := some gd }
      | (some env_new,gd) =>
        saved b (some { gd with env_valid := toggled gd.env_valid }) (operations medium (!current gd) left.val env_new) done
  | .fw_setenv reqs left done =>
    let o := fw_env_open sum medium default_environment b.flash
    let env := reqs.foldl fw_env_write o.environment
    if env.dirty then
      saved b none (operations medium (!o.dev_current) left.val (flushed sum medium o env.data)) done
    else { b with gd := none }

def valid_dev (dev : Bool) : EnvValid := if dev then .ENV_REDUND else .ENV_VALID

/-- The tools select the copy that U-Boot selects, and read from it what U-Boot has after an
    import, for every name. -/
structure Agrees (flash : Flash) (policy : Policy) : Prop where
  selects : ∀ env_valid, env_check_redund sum upgrade env_valid (flash false) false (flash true) false =
    (0,valid_dev (fw_env_open sum medium default_environment flash).dev_current,flash false)
  reads : ∀ old, ∃ htab,
    himport_r old (flash (fw_env_open sum medium default_environment flash).dev_current).data NUL false false [] policy = some (1,htab) ∧
    ∀ name, EQUALS ∉ name →
      fw_getenv (fw_env_open sum medium default_environment flash).environment.data name = env_get htab name

def Readable (data : List UInt8) : Prop := ∃ pairs, PlainText data pairs ∧ Fits size pairs.length

/-- What U-Boot saves and what the tools make of the text they open can be read by both. -/
def Plain (b : Board) : Event sum size → Prop
  | .boot => True
  | .env_save htab _ _ => PlainTable htab size
  | .fw_setenv reqs _ _ =>
    (∀ req ∈ reqs, PlainRequest req) ∧
    ∃ pairs, PlainText (fw_env_open sum medium default_environment b.flash).environment.data pairs ∧
      Fits size (all_changed size pairs reqs).length

def Flagged (flash : Flash) : Prop :=
  ∀ dev, crc_ok sum (flash dev) = true → (flash dev).flags = ENV_REDUND_OBSOLETE ∨ (flash dev).flags = ENV_REDUND_ACTIVE

/-- After a completed save: a good copy, flags that both sides read the same way, and a U-Boot
    that runs on a good copy. -/
structure Settled (b : Board) : Prop where
  found : ¬Lost sum (b.flash false) (b.flash true)
  flagged : medium = .nor → Flagged sum b.flash
  running : ∀ gd, b.gd = some gd → crc_ok sum (b.flash (current gd)) = true

structure Inv (b : Board) : Prop where
  sized : ∀ dev, (b.flash dev).data.length = size
  readable : ∀ dev, crc_ok sum (b.flash dev) = true → Readable size (b.flash dev).data
  settled : b.completed = true → Settled sum medium b
/-! ## The choice -/

variable {sum medium size upgrade default_environment}

theorem select_serial (env0 env1 : EnvT) : check_serial env0 env1 = valid_dev (select .ubi env0.flags env1.flags) := by
  unfold check_serial select valid_dev
  simp only [gt_iff_lt,ge_iff_le,UInt8.lt_iff_toNat_lt,UInt8.le_iff_toNat_le,← UInt8.toNat_inj]
  simp
  split_ifs <;> first | rfl | omega

theorem select_flags {env0 env1 : EnvT} (flag0 : env0.flags = ENV_REDUND_OBSOLETE ∨ env0.flags = ENV_REDUND_ACTIVE)
    (flag1 : env1.flags = ENV_REDUND_OBSOLETE ∨ env1.flags = ENV_REDUND_ACTIVE) :
    check_serial env0 env1 = valid_dev (select .nor env0.flags env1.flags) := by
  unfold check_serial select valid_dev
  rcases flag0 with zero | zero <;> rcases flag1 with one | one <;> rw [zero,one] <;> rfl

theorem fw_env_open_found {flash : Flash} (found : ¬Lost sum (flash false) (flash true))
    (flagged : medium = .nor → Flagged sum flash) :
    valid_dev (fw_env_open sum medium default_environment flash).dev_current = chosen sum (flash false) (flash true) ∧
      (fw_env_open sum medium default_environment flash).environment.data =
        (flash (fw_env_open sum medium default_environment flash).dev_current).data ∧
      crc_ok sum (flash (fw_env_open sum medium default_environment flash).dev_current) = true := by
  unfold fw_env_open
  cases good0 : crc_ok sum (flash false) <;> cases good1 : crc_ok sum (flash true)
  · exact absurd ⟨good0,good1⟩ found
  · simp [chosen,good0,good1,opened,valid_dev]
  · simp [chosen,good0,good1,opened,valid_dev]
  · have same : check_serial (flash false) (flash true) = valid_dev (select medium (flash false).flags (flash true).flags) := by
      cases medium with
      | nor => exact select_flags (flagged rfl false good0) (flagged rfl true good1)
      | ubi => exact select_serial _ _
    have good : ∀ dev, crc_ok sum (flash dev) = true := fun dev => by cases dev <;> assumption
    simp [chosen,good0,good1,opened,same,good]

/-! ## Saves -/

structure Fresh (sum : List UInt8 → UInt32) (medium : Medium) (size : ℕ) (env : EnvT) : Prop where
  good : crc_ok sum env = true
  sized : env.data.length = size
  readable : Readable size env.data
  active : medium = .nor → env.flags = ENV_REDUND_ACTIVE

def cleared (env : EnvT) : EnvT := { env with flags := ENV_REDUND_OBSOLETE }

theorem cleared_good (env : EnvT) : crc_ok sum (cleared env) = crc_ok sum env := rfl

/-- What the operations of a save, or the first of them, leave. -/
inductive Outcome (medium : Medium) (flash : Flash) (target : Bool) (left env : EnvT) : Bool → Flash → Prop
  | untouched : Outcome medium flash target left env false flash
  | spoiled : Outcome medium flash target left env false (Function.update flash target left)
  | written : Outcome medium flash target left env (medium = .ubi) (Function.update flash target env)
  | marked (nor : medium = .nor) :
    Outcome medium flash target left env true
      (Function.update (Function.update flash target env) (!target) (cleared (flash !target)))

theorem saved_outcome (b : Board) (gd : Option Gd) (target : Bool) (left env : EnvT) (done : ℕ) :
    ∃ complete, Outcome medium b.flash target left env complete (saved b gd (operations medium target left env) done).flash ∧
      (saved b gd (operations medium target left env) done).gd = (if complete then gd else none) ∧
      (saved b gd (operations medium target left env) done).completed = (complete || b.completed) := by
  have twice : Function.update (Function.update b.flash target left) target env = Function.update b.flash target env :=
    update_idem _ _ _
  have other : (Function.update b.flash target env) (!target) = b.flash !target :=
    update_of_ne (by cases target <;> simp) _ _
  unfold saved
  cases medium with
  | nor =>
    rcases done with _ | _ | _ | done
    · exact ⟨false,.untouched,rfl,rfl⟩
    · exact ⟨false,.spoiled,rfl,rfl⟩
    · refine ⟨false,?_,rfl,rfl⟩
      simp only [operations,operated,operate,List.take,length_cons,length_nil,List.foldl,twice]
      exact Outcome.written
    · refine ⟨true,?_,?_,?_⟩
      · simp only [operations,operated,operate,length_cons,length_nil,List.foldl,twice,other]
        rw [if_pos (by omega)]
        exact Outcome.marked rfl
      · simp [operations]
      · simp [operations]
  | ubi =>
    rcases done with _ | _ | done
    · exact ⟨false,.untouched,rfl,rfl⟩
    · exact ⟨false,.spoiled,rfl,rfl⟩
    · refine ⟨true,?_,?_,?_⟩
      · simp only [operations,operated,operate,length_cons,length_nil,List.foldl,twice]
        rw [if_pos (by omega)]
        exact Outcome.written
      · simp [operations]
      · simp [operations]

theorem found_good {flash : Flash} {dev : Bool} (good : crc_ok sum (flash dev) = true) : ¬Lost sum (flash false) (flash true) := by
  rintro ⟨first,second⟩
  cases dev
  · rw [first] at good
    cases good
  · rw [second] at good
    cases good

section saves
variable {flash after : Flash} {target : Bool} {left env : EnvT} {complete : Bool}
  (outcome : Outcome medium flash target left env complete after) (bad : crc_ok sum left = false ∧ left.data.length = size)
  (fresh : Fresh sum medium size env)
include outcome bad fresh

omit bad fresh in
theorem outcome_places (dev : Bool) :
    after dev = flash dev ∨ after dev = cleared (flash dev) ∧ medium = .nor ∨ dev = target ∧ (after dev = left ∨ after dev = env) := by
  cases outcome with
  | untouched => exact .inl rfl
  | spoiled | written =>
    by_cases here : dev = target
    · subst here
      simp
    · simp [update_of_ne here]
  | marked nor =>
    by_cases here : dev = !target
    · subst here
      simp [nor]
    · have same : dev = target := by
        cases dev <;> cases target <;> simp at here ⊢
      subst same
      simp

theorem outcome_sized (sized : ∀ dev, (flash dev).data.length = size) (dev : Bool) : (after dev).data.length = size := by
  rcases outcome_places outcome dev with same | ⟨same,-⟩ | ⟨-,same | same⟩
  · rw [same,sized]
  · rw [same]
    exact sized dev
  · rw [same,bad.2]
  · rw [same,fresh.sized]

theorem outcome_readable (readable : ∀ dev, crc_ok sum (flash dev) = true → Readable size (flash dev).data) (dev : Bool)
    (good : crc_ok sum (after dev) = true) : Readable size (after dev).data := by
  rcases outcome_places outcome dev with same | ⟨same,-⟩ | ⟨-,same | same⟩ <;> rw [same] at good ⊢
  · exact readable dev good
  · exact readable dev good
  · rw [bad.1] at good
    cases good
  · exact fresh.readable

theorem outcome_flagged (nor : medium = .nor) (flagged : Flagged sum flash) : Flagged sum after := by
  intro dev good
  rcases outcome_places outcome dev with same | ⟨same,-⟩ | ⟨-,same | same⟩ <;> rw [same] at good ⊢
  · exact flagged dev good
  · exact .inl rfl
  · rw [bad.1] at good
    cases good
  · exact .inr (fresh.active nor)

omit bad fresh in
theorem outcome_kept (good : crc_ok sum (flash !target) = true) : crc_ok sum (after !target) = true := by
  rcases outcome_places outcome (!target) with same | ⟨same,-⟩ | ⟨impossible,-⟩
  · rw [same,good]
  · rw [same,cleared_good,good]
  · cases target <;> cases impossible

omit bad in
theorem outcome_complete (completes : complete = true) :
    crc_ok sum (after target) = true ∧ (medium = .nor → Flagged sum after) := by
  cases outcome with
  | untouched | spoiled => cases completes
  | written =>
    have ubi : medium = .ubi := by simpa using completes
    refine ⟨by simpa using fresh.good,fun nor => ?_⟩
    rw [ubi] at nor
    cases nor
  | marked nor =>
    have apart : target ≠ !target := by cases target <;> simp
    have here : (Function.update (Function.update flash target env) (!target) (cleared (flash !target))) target = env := by
      rw [update_of_ne apart,update_self]
    refine ⟨by rw [here]; exact fresh.good,fun _ dev _ => ?_⟩
    by_cases same : dev = target
    · subst same
      rw [here]
      exact .inr (fresh.active nor)
    · have other : dev = !target := by cases dev <;> cases target <;> simp at same ⊢
      subst other
      rw [update_self]
      exact .inl rfl

end saves

theorem saved_inv {b : Board} (inv : Inv sum medium size b) {target : Bool} {left env : EnvT}
    (bad : crc_ok sum left = false ∧ left.data.length = size) (fresh : Fresh sum medium size env)
    (kept : b.completed = true → crc_ok sum (b.flash !target) = true) {gd : Option Gd}
    (names : ∀ g, gd = some g → current g = target) (done : ℕ) :
    Inv sum medium size (saved b gd (operations medium target left env) done) := by
  obtain ⟨complete,outcome,gdIs,completedIs⟩ := @saved_outcome medium b gd target left env done
  refine ⟨outcome_sized outcome bad fresh inv.sized,outcome_readable outcome bad fresh inv.readable,?_⟩
  intro completed
  rw [completedIs] at completed
  cases complete with
  | true =>
    obtain ⟨good,flagged⟩ := outcome_complete outcome fresh rfl
    refine ⟨found_good good,flagged,fun g running => ?_⟩
    rw [gdIs,if_pos rfl] at running
    rw [names g running,good]
  | false =>
    have before := inv.settled completed
    have good := outcome_kept outcome (kept completed)
    refine ⟨found_good good,fun nor => outcome_flagged outcome bad fresh nor (before.flagged nor),fun g running => ?_⟩
    rw [gdIs] at running
    cases running

/-! ## Steps -/

theorem new_copy_fresh (large : 2 ≤ size) {gd after : Gd} {htab : Htab} (table : PlainTable htab size) {env : EnvT}
    (copied : new_copy sum medium size gd htab = (some env,after)) : Fresh sum medium size env ∧ after.env_valid = gd.env_valid := by
  unfold new_copy at copied
  cases exports : hexport_r htab NUL false size with
  | refused | overrun =>
    rw [exports] at copied
    cases copied
  | block bytes =>
    obtain ⟨sized,readable⟩ := hexport_plain table large exports
    rw [exports] at copied
    cases medium with
    | nor =>
      cases copied
      exact ⟨⟨by simp [crc_ok],sized,readable,fun _ => rfl⟩,rfl⟩
    | ubi =>
      cases copied
      exact ⟨⟨by simp [crc_ok],sized,readable,by rintro ⟨⟩⟩,rfl⟩

theorem new_copy_none {gd after : Gd} {htab : Htab} (copied : new_copy sum medium size gd htab = (none,after)) : after = gd := by
  unfold new_copy at copied
  cases exports : block (hexport_r htab NUL false size) with
  | none =>
    rw [exports] at copied
    cases copied
    rfl
  | some data =>
    rw [exports] at copied
    cases medium <;> cases copied

theorem flushed_fresh (o : Opened) {data : List UInt8} (sized : data.length = size) (readable : Readable size data) :
    Fresh sum medium size (flushed sum medium o data) := by
  cases medium with
  | nor => exact ⟨by simp [crc_ok,flushed],sized,readable,fun _ => rfl⟩
  | ubi => exact ⟨by simp [crc_ok,flushed],sized,readable,by rintro ⟨⟩⟩

theorem fw_env_open_sized {flash : Flash} (sized : ∀ dev, (flash dev).data.length = size)
    (default_fits : default_environment.length ≤ size) :
    (fw_env_open sum medium default_environment flash).environment.data.length = size := by
  simp only [fw_env_open,opened]
  split_ifs
  · exact sized _
  · exact sized _
  · simp only [length_append,length_drop,sized]
    omega
  · exact sized _

theorem boot_current {flash : Flash} (found : ¬Lost sum (flash false) (flash true)) :
    crc_ok sum (flash (current (env_import_redund sum upgrade Gd.reset (flash false) false (flash true) false).2)) = true := by
  rw [env_import_redund_found found]
  have good := chosen_good found
  unfold named at good
  unfold current
  split at good
  · next first =>
    simpa [first] using good
  · next second =>
    simpa [second] using good

theorem step_inv (large : 2 ≤ size) (default_fits : default_environment.length ≤ size) {b : Board} (e : Event sum size)
    (inv : Inv sum medium size b) (plain : Plain sum medium size default_environment b e) :
    Inv sum medium size (step sum medium size upgrade default_environment b e) := by
  cases e with
  | boot =>
    refine ⟨inv.sized,inv.readable,fun completed => ?_⟩
    have settled := inv.settled completed
    refine ⟨settled.found,settled.flagged,fun gd running => ?_⟩
    cases running
    exact boot_current settled.found
  | env_save htab left done =>
    cases running : b.gd with
    | none =>
      simp only [step,running]
      exact inv
    | some gd =>
      cases copied : new_copy sum medium size gd htab with
      | mk copy after =>
        cases copy with
        | none =>
          simp only [step,running,copied]
          refine ⟨inv.sized,inv.readable,fun completed => ?_⟩
          have settled := inv.settled completed
          refine ⟨settled.found,settled.flagged,fun g same => ?_⟩
          cases same
          rw [new_copy_none copied]
          exact settled.running gd running
        | some env =>
          obtain ⟨fresh,same⟩ := new_copy_fresh large plain copied
          have place : current after = current gd := by rw [current,current,same]
          simp only [step,running,copied]
          refine saved_inv inv left.property fresh ?_ ?_ done
          · intro completed
            rw [Bool.not_not,place]
            exact (inv.settled completed).running gd running
          · intro g next
            cases next
            unfold current toggled
            by_cases first : after.env_valid = .ENV_VALID <;> simp [first]
  | fw_setenv reqs left done =>
    obtain ⟨requests,pairs,text,fits⟩ := plain
    obtain ⟨changes,sized⟩ := fw_env_writes_text requests text
    have length := @fw_env_open_sized sum medium size default_environment b.flash inv.sized default_fits
    rw [length] at changes sized
    simp only [step]
    by_cases dirty : (reqs.foldl fw_env_write (fw_env_open sum medium default_environment b.flash).environment).dirty = true
    · rw [if_pos dirty]
      refine saved_inv inv left.property (flushed_fresh _ sized ⟨_,changes,fits⟩) ?_ (by simp) done
      intro completed
      have settled := inv.settled completed
      rw [Bool.not_not]
      exact (fw_env_open_found settled.found settled.flagged).2.2
    · rw [if_neg dirty]
      refine ⟨inv.sized,inv.readable,fun completed => ?_⟩
      have settled := inv.settled completed
      exact ⟨settled.found,settled.flagged,by simp⟩

theorem settled_agrees {b : Board} (inv : Inv sum medium size b) (completed : b.completed = true) {policy : Policy}
    (accepts : Accepts policy) : Agrees sum medium upgrade default_environment b.flash policy := by
  have settled := inv.settled completed
  obtain ⟨selects,dataIs,good⟩ := @fw_env_open_found sum medium default_environment b.flash settled.found settled.flagged
  refine ⟨fun env_valid => ?_,fun old => ?_⟩
  · rw [env_check_redund_found settled.found,selects]
  · obtain ⟨pairs,text,fits⟩ := inv.readable _ good
    rw [← inv.sized (fw_env_open sum medium default_environment b.flash).dev_current] at fits
    obtain ⟨htab,imported,gets⟩ := env_get_text text fits accepts old
    refine ⟨htab,imported,fun name no_pair => ?_⟩
    rw [dataIs,fw_getenv_text text no_pair,gets]

end

/-- In every run of boots, saves by U-Boot and saves by the tools, completed or cut, in which the
    values that are saved have no backslash and the variables can be imported, the tools select
    the copy that U-Boot selects and read what U-Boot reads, in every state after a completed
    save. -/
theorem fw_env_agrees (sum : List UInt8 → UInt32) (medium : Medium) {size : ℕ} (upgrade : Bool) {default_environment : List UInt8}
    (large : 2 ≤ size) (default_fits : default_environment.length ≤ size) {flash : Flash}
    (sized : ∀ dev, (flash dev).data.length = size)
    (readable : ∀ dev, crc_ok sum (flash dev) = true → Readable size (flash dev).data) (gd : Option Gd)
    (events : List (Event sum size))
    (plain : Along (step sum medium size upgrade default_environment) (Plain sum medium size default_environment) ⟨flash,gd,false⟩ events)
    (completed : (run (step sum medium size upgrade default_environment) ⟨flash,gd,false⟩ events).completed = true)
    {policy : Policy} (accepts : Accepts policy) :
    Agrees sum medium upgrade default_environment
      (run (step sum medium size upgrade default_environment) ⟨flash,gd,false⟩ events).flash policy := by
  have start : Inv sum medium size ⟨flash,gd,false⟩ := ⟨sized,readable,by simp⟩
  have kept := invariant (fun b e inv meets => @step_inv sum medium size upgrade default_environment large default_fits b e inv meets) start plain
  exact settled_agrees kept completed accepts

def erased : Left crc32 16 := ⟨⟨0xffffffff,0xff,List.replicate 16 0xff⟩,by decide +kernel⟩

def one_variable (value : Str) : Htab :=
  ⟨[⟨0,[],[]⟩,⟨0,[],[]⟩,⟨0,[],[]⟩,⟨3,[97],value⟩,⟨0,[],[]⟩,⟨0,[],[]⟩],5,1⟩

theorem one_variable_valid : Valid (one_variable [120]) := by
  have created : hcreate_r 4 = some ⟨replicate 6 ⟨USED_FREE,[],[]⟩,5,0⟩ := by decide +kernel
  have made : (run Hashtable.step ⟨⟨replicate 6 ⟨USED_FREE,[],[]⟩,5,0⟩,[]⟩ [.enter [97] [120] ⟨0,0⟩]).htab =
      one_variable [120] := by decide +kernel
  rw [← made]
  exact valid_run (by decide) created _

theorem letters_plain {key value : Str} (named : key ≠ []) (some_value : value ≠ []) (low : ∀ c ∈ key, 97 ≤ c)
    (small : ∀ c ∈ value, 97 ≤ c) : PlainPair (key,value) := by
  have other : ∀ c : UInt8, 97 ≤ c → c ≠ EQUALS ∧ c ≠ NUL ∧ c ≠ BACKSLASH ∧ isblank c = false ∧ c ≠ HASH := by
    intro c large
    have : 97 ≤ c.toNat := large
    refine ⟨?_,?_,?_,?_,?_⟩
    · rintro rfl
      exact absurd this (by decide)
    · rintro rfl
      exact absurd this (by decide)
    · rintro rfl
      exact absurd this (by decide)
    · unfold isblank
      rw [decide_eq_false_iff_not]
      rintro (rfl | rfl) <;> exact absurd this (by decide)
    · rintro rfl
      exact absurd this (by decide)
  refine ⟨⟨named,fun c member => ?_,fun c member => ?_⟩,⟨some_value,fun c member => ?_⟩,fun member => ?_⟩
  · have letter := other c (low c member)
    exact ⟨letter.1,letter.2.1,letter.2.1⟩
  · have letter := other c (low c (mem_of_mem_head? member))
    exact letter.2.2.2
  · exact (other c (small c member)).2.1
  · exact (other BACKSLASH (small _ member)).2.2.1 rfl

theorem one_variable_plain : PlainTable (one_variable [120]) 16 := by
  have entries : exported (one_variable [120]) false = [⟨3,[97],[120]⟩] := by decide
  refine ⟨one_variable_valid,fun key data stored => ?_,fits_of_le (by rw [entries]; decide)⟩
  obtain ⟨slot,member,rfl,rfl⟩ := exported_stores.mp stored
  rw [entries,mem_singleton] at member
  subst member
  exact letters_plain (by simp) (by simp) (by simp) (by simp)

/-- A save by U-Boot, a save by the tools that is cut before the copy is written, and a boot. -/
def two_writers : List (Event crc32 16) :=
  [.boot,.env_save (one_variable [120]) erased 3,.fw_setenv [⟨[98],some [121],false⟩] erased 1,.boot]

theorem two_writers_agree :
    Agrees crc32 .nor false [0,0] (run (step crc32 .nor 16 false [0,0]) ⟨fun _ => erased.val,none,false⟩ two_writers).flash
      (fun _ _ => ⟨0,0⟩) := by
  refine @fw_env_agrees crc32 .nor 16 false [0,0] (by decide) (by decide) (fun _ => erased.val) (fun _ => erased.property.2) ?_ none
    two_writers ?_ (by decide +kernel) (fun _ _ => ⟨0,0⟩) (fun _ _ => ⟨rfl,rfl⟩)
  · intro dev good
    exact absurd good (by simp [erased.property.1])
  · refine ⟨trivial,one_variable_plain,⟨?_,[([97],[120])],⟨?_,by simp,List.replicate 11 0,?_,by simp⟩,?_⟩,trivial,trivial⟩
    · intro req member
      rw [List.mem_singleton] at member
      subst member
      exact ⟨by decide,fun _ => letters_plain (by simp) (by simp) (by simp) (by simp)⟩
    · intro pair member
      rw [List.mem_singleton] at member
      subst member
      exact letters_plain (by simp) (by simp) (by simp) (by simp)
    · decide +kernel
    · exact fits_of_le (by decide +kernel)

/-- U-Boot saves a value that is one backslash, and the tools read two. -/
theorem backslash_read_twice :
    ¬ ∀ events : List (Event crc32 16),
      (run (step crc32 .nor 16 false [0,0]) ⟨fun _ => erased.val,none,false⟩ events).completed = true →
      Agrees crc32 .nor false [0,0] (run (step crc32 .nor 16 false [0,0]) ⟨fun _ => erased.val,none,false⟩ events).flash
        (fun _ _ => ⟨0,0⟩) := by
  intro claim
  obtain ⟨-,reads⟩ := claim [.boot,.env_save (one_variable [92]) erased 3] (by decide +kernel)
  obtain ⟨htab,imported,gets⟩ := reads none
  have same := gets [97] (by decide)
  have uboot : (himport_r none ((run (step crc32 .nor 16 false [0,0]) ⟨fun _ => erased.val,none,false⟩
      [.boot,.env_save (one_variable [92]) erased 3]).flash false).data NUL false false [] fun _ _ => ⟨0,0⟩).map
      (fun r => env_get r.2 [97]) = some (some [92]) := by decide +kernel
  have tools : fw_getenv (fw_env_open crc32 .nor [0,0] (run (step crc32 .nor 16 false [0,0]) ⟨fun _ => erased.val,none,false⟩
      [.boot,.env_save (one_variable [92]) erased 3]).flash).environment.data [97] = some [92,92] := by decide +kernel
  have place : (fw_env_open crc32 .nor [0,0] (run (step crc32 .nor 16 false [0,0]) ⟨fun _ => erased.val,none,false⟩
      [.boot,.env_save (one_variable [92]) erased 3]).flash).dev_current = false := by decide +kernel
  rw [place] at imported
  rw [imported,Option.map_some,Option.some_inj] at uboot
  rw [tools,uboot] at same
  exact absurd same (by decide)

end UBoot.FwEnvRuns
