import UBoot.EnvRedund

/-!
The environment in two UBI volumes (`env/ubi.c`, redundant) over whole runs of boots and saves. A
save writes the volume that does not hold the current environment under the next serial, and a boot
chooses between the volumes by their serials. The serial counts every export in eight bits, and the
comparison knows one wrap only, the one from 255 to 0.
-/
namespace UBoot.Env.Ubi
open UBoot.Runs

structure Answers where
  part_fail : Bool
  create1_fail : Bool
  create2_fail : Bool
  read1_fail : Bool
  read2_fail : Bool

def Answers.good : Answers := ⟨false,false,false,false,false⟩

section
variable (sum : List UInt8 → UInt32)

inductive Write where
  | completes
  /-- It fails and the volume is as before. -/
  | refused
  /-- It fails and leaves a copy with a wrong checksum. -/
  | broken (left : { env : EnvT // crc_ok sum env = false })

/-- The two volumes, the state of `env/common.c`, and the environment of the
    most recently completed save. -/
structure Board where
  volume : EnvT
  volume_redund : EnvT
  gd : Gd
  saved : Option (List UInt8)

/-- The answer of `ubi_volume_write` and the contents of the volume. -/
def ubi_volume_write (env_new old : EnvT) : Write sum → Int × EnvT
  | .completes => (0,env_new)
  | .refused => (- EIO,old)
  | .broken left => (- EIO,left.val)

/-- `exported` and `part_fail` are the answers of `hexport_r` and `ubi_part`. -/
def env_ubi_save (b : Board) (exported : Option (List UInt8)) (part_fail : Bool) (write : Write sum) : Int × Board :=
  match env_export sum b.gd exported with
  | (none,gd) => (1,{ b with gd := gd })
  | (some env_new,gd) =>
    if part_fail then (1,{ b with gd := gd })
    else if gd.env_valid = .ENV_VALID then
      match ubi_volume_write sum env_new b.volume_redund write with
      | (ret,contents) =>
        if ret ≠ 0 then (1,{ b with gd := gd, volume_redund := contents })
        else (0,{ b with gd := { gd with env_valid := .ENV_REDUND }, volume_redund := contents })
    else
      match ubi_volume_write sum env_new b.volume write with
      | (ret,contents) =>
        if ret ≠ 0 then (1,{ b with gd := gd, volume := contents })
        else (0,{ b with gd := { gd with env_valid := .ENV_VALID }, volume := contents })

/-- `create` is the configuration of `ENV_UBI_VOLUME_CREATE`. -/
def env_ubi_load (upgrade create : Bool) (b : Board) (answers : Answers) : Int × Gd :=
  if answers.part_fail then (- EIO,env_set_default b.gd)
  else
    let create1_fail := create && answers.create1_fail
    let create2_fail := create && answers.create2_fail
    if create1_fail ∧ create2_fail then (-ENODEV,env_set_default b.gd)
    else
      env_import_redund sum upgrade b.gd b.volume (create1_fail || answers.read1_fail) b.volume_redund
        (create2_fail || answers.read2_fail)

inductive Event where
  | boot
  | save (exported : Option (List UInt8)) (part_fail : Bool) (write : Write sum)

/-- A save that returns 0 has completed. -/
def note_saved (b : Board) (exported : Option (List UInt8)) : Int × Board → Board
  | (ret,after) => { after with saved := if ret = 0 then exported else b.saved }

def step (upgrade create : Bool) (b : Board) : Event sum → Board
  | .boot => { b with gd := (env_ubi_load sum upgrade create { b with gd := Gd.reset } Answers.good).2 }
  | .save exported part_fail write => note_saved b exported (env_ubi_save sum b exported part_fail write)

/-- A boot after a completed save imports the most recently completed one. -/
def ImportsNewest (upgrade create : Bool) (b : Board) (e : Event sum) : Prop :=
  e = .boot → ∀ data, b.saved = some data → (step sum upgrade create b e).gd.imported = some data

def kept (b : Board) : EnvT := named b.gd.env_valid b.volume b.volume_redund

/-- A save that completes takes a serial that supersedes the one of the volume
    that it leaves alone, unless that one has a wrong checksum. -/
def SerialSupersedes (b : Board) : Event sum → Prop
  | .save (some _) false .completes =>
    crc_ok sum (kept b) = true → Supersedes (b.gd.env_valid ≠ .ENV_VALID) (b.gd.env_flags+1) (kept b).flags
  | _ => True

instance (b : Board) (e : Event sum) : Decidable (SerialSupersedes sum b e) :=
  match e with
  | .save (some _) false .completes => inferInstanceAs (Decidable (_ → _))
  | .boot | .save none _ _ | .save (some _) true _ | .save (some _) false .refused
  | .save (some _) false (.broken _) => .isTrue trivial

/-- The volume that `env_valid` names holds the environment `data` and is the
    one that a boot chooses. -/
structure Newest (b : Board) (data : List UInt8) : Prop where
  named_valid : b.gd.env_valid ≠ .ENV_INVALID
  good : crc_ok sum (kept b) = true
  holds : (kept b).data = data
  picked : chosen sum b.volume b.volume_redund = b.gd.env_valid

def Inv (b : Board) : Prop := ∀ data, b.saved = some data → Newest sum b data

/-- `b` with `env` in the volume that a save writes. -/
def written (b : Board) (env : EnvT) : Board :=
  if b.gd.env_valid = .ENV_VALID then { b with volume_redund := env } else { b with volume := env }

inductive Saves (b : Board) : Event sum → Board → Prop
  | nothing {e : Event sum} (env_flags : UInt8) (incomplete : ∀ data, e ≠ .save (some data) false .completes) :
    Saves b e { b with gd := { b.gd with env_flags := env_flags } }
  | broken {e : Event sum} (env_flags : UInt8) {left : EnvT}
    (incomplete : ∀ data, e ≠ .save (some data) false .completes) (bad : crc_ok sum left = false) :
    Saves b e { written b left with gd := { b.gd with env_flags := env_flags } }
  | completed (data : List UInt8) :
    Saves b (.save (some data) false .completes)
      { written b ⟨sum data,b.gd.env_flags+1,data⟩ with
        gd := { b.gd with env_flags := b.gd.env_flags+1, env_valid := toggled b.gd.env_valid }
        saved := some data }

variable {sum} {upgrade create : Bool} {b : Board}

@[simp] theorem written_saved (env : EnvT) : (written b env).saved = b.saved := by
  rw [written]
  split <;> rfl

theorem step_refused (data : List UInt8) :
    step sum upgrade create b (.save (some data) false .refused) =
      { b with gd := { b.gd with env_flags := b.gd.env_flags+1 } } := by
  by_cases first : b.gd.env_valid = .ENV_VALID <;>
    simp [step,note_saved,env_ubi_save,env_export,ubi_volume_write,first, EIO]

theorem step_broken (data : List UInt8) (left : { env : EnvT // crc_ok sum env = false }) :
    step sum upgrade create b (.save (some data) false (.broken left)) =
      { written b left.val with gd := { b.gd with env_flags := b.gd.env_flags+1 } } := by
  by_cases first : b.gd.env_valid = .ENV_VALID <;>
    simp [step,note_saved,env_ubi_save,env_export,ubi_volume_write,written,first, EIO]

theorem step_completes (data : List UInt8) :
    step sum upgrade create b (.save (some data) false .completes) =
      { written b ⟨sum data,b.gd.env_flags+1,data⟩ with
        gd := { b.gd with env_flags := b.gd.env_flags+1, env_valid := toggled b.gd.env_valid }
        saved := some data } := by
  by_cases first : b.gd.env_valid = .ENV_VALID <;>
    simp [step,note_saved,env_ubi_save,env_export,ubi_volume_write,written,toggled,first]

theorem step_saves (exported : Option (List UInt8)) (part_fail : Bool) (write : Write sum) :
    Saves sum b (.save exported part_fail write) (step sum upgrade create b (.save exported part_fail write)) := by
  cases exported with
  | none => exact Saves.nothing b.gd.env_flags (by simp)
  | some data =>
    cases part_fail with
    | true => exact Saves.nothing (b.gd.env_flags+1) (by simp)
    | false =>
      cases write with
      | completes =>
        rw [step_completes]
        exact Saves.completed data
      | refused =>
        rw [step_refused]
        exact Saves.nothing (b.gd.env_flags+1) (by simp)
      | broken left =>
        rw [step_broken]
        exact Saves.broken (b.gd.env_flags+1) (by simp) left.property

/-- A boot imports the volume that holds the most recently completed save. -/
theorem step_boot {data : List UInt8} (newest : Newest sum b data) :
    step sum upgrade create b .boot = { b with gd := ⟨b.gd.env_valid,(kept b).flags,some data⟩ } := by
  have found : ¬Lost sum b.volume b.volume_redund := by
    intro lost
    have good := newest.good
    rw [kept,named] at good
    split at good
    · simp [lost.1] at good
    · simp [lost.2] at good
  simp [step,env_ubi_load,Answers.good,env_import_redund_found found,newest.picked,← newest.holds,kept]

theorem newest_broken {data : List UInt8} {left : EnvT} {gd : Gd} (newest : Newest sum b data)
    (same : gd.env_valid = b.gd.env_valid) (bad : crc_ok sum left = false) :
    Newest sum { written b left with gd := gd } data := by
  have good := newest.good
  have holds := newest.holds
  by_cases first : b.gd.env_valid = .ENV_VALID
  · rw [kept,named,if_pos first] at good holds
    refine ⟨by simp [same,first],by simpa [kept,named,same,first,written] using good,
      by simpa [kept,named,same,first,written] using holds,?_⟩
    simp [written,same,first,chosen,good,bad]
  have second : b.gd.env_valid = .ENV_REDUND := by
    cases valid : b.gd.env_valid with
    | ENV_INVALID => exact absurd valid newest.named_valid
    | ENV_VALID => exact absurd valid first
    | ENV_REDUND => rfl
  rw [kept,named,if_neg first] at good holds
  refine ⟨by simp [same,second],by simpa [kept,named,same,second,written] using good,
    by simpa [kept,named,same,second,written] using holds,?_⟩
  simp [written,same,second,chosen,good,bad]

theorem newest_completed {data : List UInt8} {gd : Gd} {serial : UInt8} (valid : gd.env_valid = toggled b.gd.env_valid)
    (supersedes : crc_ok sum (kept b) = true →
      Supersedes (b.gd.env_valid ≠ .ENV_VALID) serial (kept b).flags) :
    Newest sum { written b ⟨sum data,serial,data⟩ with gd := gd, saved := some data } data := by
  by_cases first : b.gd.env_valid = .ENV_VALID
  · rw [kept,named,if_pos first] at supersedes
    have picked : chosen sum b.volume ⟨sum data,serial,data⟩ = .ENV_REDUND := by
      rw [chosen_second (crc_ok_exported serial data)]
      intro good
      simpa [first] using supersedes good
    constructor <;> simp [kept,named,written,toggled,valid,first,picked]
  · rw [kept,named,if_neg first] at supersedes
    have picked : chosen sum ⟨sum data,serial,data⟩ b.volume_redund = .ENV_VALID := by
      rw [chosen_first (crc_ok_exported serial data)]
      intro good
      simpa [first] using supersedes good
    constructor <;> simp [kept,named,written,toggled,valid,first,picked]

theorem inv_saves {e : Event sum} {after : Board} (saves : Saves sum b e after) (inv : Inv sum b)
    (serial : SerialSupersedes sum b e) : Inv sum after := by
  intro data saved
  cases saves with
  | nothing env_flags incomplete =>
    have newest := inv data saved
    exact ⟨newest.named_valid,newest.good,newest.holds,newest.picked⟩
  | broken env_flags incomplete bad => exact newest_broken (inv data (by simpa using saved)) rfl bad
  | completed last =>
    cases saved
    exact newest_completed rfl serial

theorem inv_step (e : Event sum) (inv : Inv sum b) (serial : SerialSupersedes sum b e) :
    Inv sum (step sum upgrade create b e) := by
  cases e with
  | boot =>
    intro data saved
    have newest := inv data saved
    rw [step_boot newest]
    exact ⟨newest.named_valid,newest.good,newest.holds,newest.picked⟩
  | save exported part_fail write => exact inv_saves (step_saves exported part_fail write) inv serial

theorem step_imports_newest (e : Event sum) (inv : Inv sum b) : ImportsNewest sum upgrade create b e := by
  rintro rfl data saved
  rw [step_boot (inv data saved)]

end

/-- In every run of boots and saves in which each completed save supersedes the
    serial of the other volume, every boot after a completed save imports the
    most recently completed one, whatever the volumes held before. -/
theorem newest_imported (sum : List UInt8 → UInt32) (upgrade create : Bool) (volume volume_redund : EnvT)
    (gd : Gd) (events : List (Event sum))
    (serials : Along (step sum upgrade create) (SerialSupersedes sum) ⟨volume,volume_redund,gd,none⟩ events) :
    Along (step sum upgrade create) (ImportsNewest sum upgrade create) ⟨volume,volume_redund,gd,none⟩ events := by
  have start : Inv sum ⟨volume,volume_redund,gd,none⟩ := by
    intro data saved
    cases saved
  apply along_of_invariant (fun b e inv serial => inv_step e inv serial) _ start serials
  intro b e inv _
  exact step_imports_newest e inv

def blank : EnvT := ⟨0,0,[0xff,0xff]⟩

/-- Boots, saves and a save that finds no partition. -/
theorem newest_imported_four :
    Along (step crc32 false false) (ImportsNewest crc32 false false) ⟨blank,blank,Gd.reset,none⟩
      [.boot,.save (some [0x61,0]) false .completes,.save (some [0x62,0]) true .completes,
        .save (some [0x63,0]) false .completes,.boot] :=
  newest_imported crc32 false false blank blank Gd.reset _ (by decide +kernel)

/-- The saves that carry the serial past its end: 1 to 255 are written, an
    export that is not written takes 0, and the next save takes 1. -/
def wrapping : List (Event crc32) :=
  .boot :: List.replicate 255 (.save (some [0x61,0]) false .completes) ++
    [.save (some [0x62,0]) true .completes,.save (some [0x63,0]) false .completes]

/-- Serial 1 does not supersede the 255 before it, and the boot goes back. -/
theorem older_imported :
    ¬Along (step crc32 false false) (ImportsNewest crc32 false false) ⟨blank,blank,Gd.reset,none⟩
      (wrapping ++ [.boot]) := by
  intro along
  rw [along_append] at along
  have newest := along.2.1 rfl [0x63,0] (by decide +kernel)
  exact absurd newest (by decide +kernel)

end UBoot.Env.Ubi
