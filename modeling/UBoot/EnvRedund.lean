import UBoot.Runs

/-!
The redundant environment of `env/common.c`: the choice between the two stored
copies by their checksums and serials (`env_check_redund`), the import of the
chosen one (`env_import_redund`) and the export of a new one under the next
serial (`env_export`). The checksum is an argument. What `env_import` records
is the data that it hands to `himport_r`.
-/
namespace UBoot.Env

def EIO : Int := 5
def ENODEV : Int := 19
def ENOMSG : Int := 42

/-- One byte of the checksum of `lib/crc32.c`, without its table. -/
def DO_CRC (crc : UInt32) (byte : UInt8) : UInt32 :=
  (fun c : UInt32 => if c &&& 1 = 1 then (c >>> 1) ^^^ 0xedb88320 else c >>> 1)^[8] (crc ^^^ byte.toUInt32)

def crc32_no_comp (crc : UInt32) (bytes : List UInt8) : UInt32 := bytes.foldl DO_CRC crc

def crc32 (bytes : List UInt8) : UInt32 := crc32_no_comp 0xffffffff bytes ^^^ 0xffffffff

example : crc32 [0x31,0x32,0x33,0x34,0x35,0x36,0x37,0x38,0x39] = 0xcbf43926 := by decide +kernel

structure EnvT where
  crc : UInt32
  flags : UInt8
  data : List UInt8
deriving DecidableEq, Repr

inductive EnvValid where
  | ENV_INVALID
  | ENV_VALID
  | ENV_REDUND
deriving DecidableEq, Repr

/-- What the functions below read and change besides the copies: two fields of
    `gd` and of `env/common.c`, and the environment, which is the default one
    where nothing has been imported. -/
structure Gd where
  env_valid : EnvValid
  env_flags : UInt8
  imported : Option (List UInt8)
deriving DecidableEq, Repr

/-- `gd` and the variables of `env/common.c` after a reset. -/
def Gd.reset : Gd := ⟨.ENV_INVALID,0,none⟩

section
variable (sum : List UInt8 → UInt32)

def crc_ok (env : EnvT) : Bool := sum env.data == env.crc

/-- The byte of the serial belongs to the data of a copy without a serial. -/
def single_data (env : EnvT) : List UInt8 := env.flags :: env.data

def check_serial (env1 env2 : EnvT) : EnvValid :=
  if env1.flags = 255 ∧ env2.flags = 0 then .ENV_REDUND
  else if env2.flags = 255 ∧ env1.flags = 0 then .ENV_VALID
  else if env1.flags > env2.flags then .ENV_VALID
  else if env2.flags > env1.flags then .ENV_REDUND
  else .ENV_VALID

/-- The result, `env_valid`, and the first buffer, which an upgrade rewrites.
    `upgrade` is the configuration of `ENV_REDUNDANT_UPGRADE`. -/
def env_check_redund (upgrade : Bool) (env_valid : EnvValid) (buf1 : EnvT) (buf1_read_fail : Bool) (buf2 : EnvT)
    (buf2_read_fail : Bool) : Int × EnvValid × EnvT :=
  if buf1_read_fail ∧ buf2_read_fail then (- EIO,env_valid,buf1)
  else
    let crc1_ok := !buf1_read_fail && crc_ok sum buf1
    let crc2_ok := !buf2_read_fail && crc_ok sum buf2
    if !crc1_ok ∧ !crc2_ok then
      if upgrade ∧ !buf1_read_fail ∧ sum (single_data buf1) = buf1.crc then
        (0,.ENV_VALID,{ buf1 with data := (single_data buf1).take buf1.data.length, flags := 0 })
      else (-ENOMSG,.ENV_INVALID,buf1)
    else if crc1_ok ∧ !crc2_ok then (0,.ENV_VALID,buf1)
    else if !crc1_ok ∧ crc2_ok then (0,.ENV_REDUND,buf1)
    else (0,check_serial buf1 buf2,buf1)

def env_import (gd : Gd) (env : EnvT) : Gd := { gd with imported := some env.data }

def env_set_default (gd : Gd) : Gd := { gd with imported := none }

def env_import_redund (upgrade : Bool) (gd : Gd) (buf1 : EnvT) (buf1_read_fail : Bool) (buf2 : EnvT)
    (buf2_read_fail : Bool) : Int × Gd :=
  let (ret,env_valid,buf1) := env_check_redund sum upgrade gd.env_valid buf1 buf1_read_fail buf2 buf2_read_fail
  let gd := { gd with env_valid := env_valid }
  if ret = - EIO then (- EIO,env_set_default gd)
  else if ret = -ENOMSG then (-ENOMSG,env_set_default gd)
  else
    let ep := if gd.env_valid = .ENV_VALID then buf1 else buf2
    (0,env_import { gd with env_flags := ep.flags } ep)

def env_export (gd : Gd) (exported : Option (List UInt8)) : Option EnvT × Gd :=
  match exported with
  | none => (none,gd)
  | some data => (some ⟨sum data,gd.env_flags+1,data⟩,{ gd with env_flags := gd.env_flags+1 })

def named (env_valid : EnvValid) (env1 env2 : EnvT) : EnvT := if env_valid = .ENV_VALID then env1 else env2

def toggled (env_valid : EnvValid) : EnvValid := if env_valid = .ENV_VALID then .ENV_REDUND else .ENV_VALID

/-- The choice between two copies that can be read, at least one of them good. -/
def chosen (env1 env2 : EnvT) : EnvValid :=
  if crc_ok sum env1 ∧ crc_ok sum env2 then check_serial env1 env2
  else if crc_ok sum env1 then .ENV_VALID
  else .ENV_REDUND

def Lost (env1 env2 : EnvT) : Prop := crc_ok sum env1 = false ∧ crc_ok sum env2 = false

/-- A copy of serial `new` is chosen over a good one of serial `old`. The order
    of the serials decides, but 0 follows 255, and the first copy is chosen
    where the serials are equal. -/
def Supersedes (first : Bool) (new old : UInt8) : Prop :=
  (new = 0 ∧ old = 255) ∨ (old < new ∧ ¬(new = 255 ∧ old = 0)) ∨ (new = old ∧ first)

instance (first : Bool) (new old : UInt8) : Decidable (Supersedes first new old) :=
  inferInstanceAs (Decidable (_ ∨ _))

variable {sum}

@[simp] theorem crc_ok_exported (flags : UInt8) (data : List UInt8) : crc_ok sum ⟨sum data,flags,data⟩ = true := by
  simp [crc_ok]

variable {env1 env2 : EnvT}

theorem check_serial_valid :
    check_serial env1 env2 = .ENV_VALID ↔ Supersedes true env1.flags env2.flags := by
  simp only [check_serial,Supersedes,gt_iff_lt,UInt8.lt_iff_toNat_lt,← UInt8.toNat_inj]
  simp
  split_ifs <;> simp <;> omega

theorem check_serial_redund :
    check_serial env1 env2 = .ENV_REDUND ↔ Supersedes false env2.flags env1.flags := by
  simp only [check_serial,Supersedes,gt_iff_lt,UInt8.lt_iff_toNat_lt,← UInt8.toNat_inj]
  simp
  split_ifs <;> simp <;> omega

theorem chosen_first (good : crc_ok sum env1 = true) :
    chosen sum env1 env2 = .ENV_VALID ↔ (crc_ok sum env2 = true → Supersedes true env1.flags env2.flags) := by
  cases other : crc_ok sum env2 with
  | false => simp [chosen,good,other]
  | true => simp [chosen,good,other,check_serial_valid]

theorem chosen_second (good : crc_ok sum env2 = true) :
    chosen sum env1 env2 = .ENV_REDUND ↔ (crc_ok sum env1 = true → Supersedes false env2.flags env1.flags) := by
  cases other : crc_ok sum env1 with
  | false => simp [chosen,good,other]
  | true => simp [chosen,good,other,check_serial_redund]

/-- The choice is a good copy if there is one. -/
theorem chosen_good (found : ¬Lost sum env1 env2) :
    crc_ok sum (named (chosen sum env1 env2) env1 env2) = true := by
  cases first : crc_ok sum env1 <;> cases second : crc_ok sum env2
  · exact absurd ⟨first,second⟩ found
  · simp [chosen,named,first,second]
  · simp [chosen,named,first,second]
  · rw [named]
    split <;> assumption

theorem env_check_redund_found {upgrade : Bool} {env_valid : EnvValid}
    (found : ¬Lost sum env1 env2) :
    env_check_redund sum upgrade env_valid env1 false env2 false = (0,chosen sum env1 env2,env1) := by
  cases first : crc_ok sum env1 <;> cases second : crc_ok sum env2
  · exact absurd ⟨first,second⟩ found
  all_goals simp [env_check_redund,chosen,first,second]

/-- Of two copies that can be read the chosen one is imported. -/
theorem env_import_redund_found {upgrade : Bool} {gd : Gd} (found : ¬Lost sum env1 env2) :
    env_import_redund sum upgrade gd env1 false env2 false =
      (0,⟨chosen sum env1 env2,(named (chosen sum env1 env2) env1 env2).flags,
        some (named (chosen sum env1 env2) env1 env2).data⟩) := by
  simp [env_import_redund,env_check_redund_found found,env_import,named, EIO,ENOMSG]

end
end UBoot.Env
