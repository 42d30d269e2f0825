import UBoot.EnvRedund
import UBoot.Words

/-!
The environment in two places of an SPI flash (`env/sf.c`, redundant) over whole runs of saves and
boots. The flash is a memory of bytes. Each operation of a save is either done or stops at some
point, by a cut of the power or by an error, and then leaves anything in the bytes it was working
on. A boot chooses between the copies by their flag bytes, which the checksums do not cover.
-/
namespace UBoot.Env.Sf
open UBoot.Runs UBoot.Memory UBoot.Words List Option

def ENOMEM : Int := 12

def ENV_REDUND_OBSOLETE : UInt8 := 0
def ENV_REDUND_ACTIVE : UInt8 := 1

def ENV_HEADER_SIZE : Nat := 5

def flags_offset : Nat := 4

def DIV_ROUND_UP (n d : Nat) : Nat := (n+d-1)/d

/-- The configuration. Both copies start at a sector, without which every erase
    is refused, and do not overlap. -/
structure Layout where
  env_size : Nat
  sect_size : Nat
  offset : Nat
  offset_redund : Nat
  header : ENV_HEADER_SIZE ≤ env_size
  sector : 0 < sect_size
  aligned : sect_size ∣ offset
  aligned_redund : sect_size ∣ offset_redund
  apart : offset+env_size ≤ offset_redund ∨ offset_redund+env_size ≤ offset

abbrev Bytes := Nat → UInt8

def env_bytes (env : EnvT) : List UInt8 := le32 env.crc.toNat ++ env.flags :: env.data

def env_at (size : Nat) (m : Bytes) (offset : Nat) : EnvT :=
  ⟨UInt32.ofNat (word m offset),m (offset+flags_offset),load m (offset+ENV_HEADER_SIZE) (size-ENV_HEADER_SIZE)⟩

/-- `none` is an operation that is done. One that is stopped leaves the given
    bytes at the start of its range. -/
abbrev Answer := Option (List UInt8)

def spi_flash_erase (m : Bytes) (offset len : Nat) : Answer → Int × Bytes
  | none => (0,store m offset (List.replicate len 0xff))
  | some left => (- EIO,store m offset (left.take len))

def spi_flash_write (m : Bytes) (offset : Nat) (bytes : List UInt8) : Answer → Int × Bytes
  | none => (0,store m offset bytes)
  | some left => (- EIO,store m offset (left.take bytes.length))

structure Answers where
  setup_fail : Bool
  memalign_fail : Bool
  read_fail : Bool
  erase : Answer
  write : Answer
  write_back : Answer
  clear : Answer

def Answers.good : Answers := ⟨false,false,false,none,none,none,none⟩

/-- The flash, the state of `env/common.c`, the environment of the last
    completed save, and those of the saves that were stopped after it. -/
structure Board where
  flash : Bytes
  gd : Gd
  completed : Option (List UInt8)
  cut : List (List UInt8)

section
variable (sum : List UInt8 → UInt32) (L : Layout)

def new_offset (env_valid : EnvValid) : Nat := if env_valid = .ENV_VALID then L.offset_redund else L.offset
def old_offset (env_valid : EnvValid) : Nat := if env_valid = .ENV_VALID then L.offset else L.offset_redund

def Embedded : Prop := L.sect_size > L.env_size

instance : Decidable (Embedded L) := inferInstanceAs (Decidable (_ > _))

def saved_size : Nat := L.sect_size-L.env_size

def erase_size : Nat := DIV_ROUND_UP L.env_size L.sect_size*L.sect_size

def env_sf_save (m : Bytes) (gd : Gd) (exported : Option (List UInt8)) (answers : Answers) : Int × Bytes × Gd :=
  if answers.setup_fail then (- EIO,m,env_set_default gd)
  else
    match env_export sum gd exported with
    | (none,gd) => (- EIO,m,gd)
    | (some env_new,gd) =>
      let env_new := { env_new with flags := ENV_REDUND_ACTIVE }
      let env_new_offset := new_offset L gd.env_valid
      let env_offset := old_offset L gd.env_valid
      let saved_offset := env_new_offset+L.env_size
      if Embedded L ∧ answers.memalign_fail then (-ENOMEM,m,gd)
      else if Embedded L ∧ answers.read_fail then (- EIO,m,gd)
      else
        let saved_buffer := load m saved_offset (saved_size L)
        match spi_flash_erase m env_new_offset (erase_size L) answers.erase with
        | (ret,m) =>
          if ret ≠ 0 then (ret,m,gd)
          else
            match spi_flash_write m env_new_offset (env_bytes env_new) answers.write with
            | (ret,m) =>
              if ret ≠ 0 then (ret,m,gd)
              else
                match if Embedded L then spi_flash_write m saved_offset saved_buffer answers.write_back else (0,m) with
                | (ret,m) =>
                  if ret ≠ 0 then (ret,m,gd)
                  else
                    match spi_flash_write m (env_offset+flags_offset) [ENV_REDUND_OBSOLETE] answers.clear with
                    | (ret,m) =>
                      if ret ≠ 0 then (ret,m,gd)
                      else (0,m,{ gd with env_valid := if gd.env_valid = .ENV_VALID then .ENV_REDUND else .ENV_VALID })

/-- `malloc_fail`, `setup_fail` and the last two are the answers to a load. -/
def env_sf_load (upgrade : Bool) (m : Bytes) (gd : Gd) (malloc_fail setup_fail read1_fail read2_fail : Bool) :
    Int × Gd :=
  if malloc_fail then (- EIO,env_set_default gd)
  else if setup_fail then (- EIO,env_set_default gd)
  else
    env_import_redund sum upgrade gd (env_at L.env_size m L.offset) read1_fail
      (env_at L.env_size m L.offset_redund) read2_fail

abbrev Data := { data : List UInt8 // data.length+ENV_HEADER_SIZE = L.env_size }

inductive Event where
  | boot
  | save (exported : Option (Data L)) (answers : Answers)

def Begins (answers : Answers) : Prop :=
  answers.setup_fail = false ∧ (Embedded L → answers.memalign_fail = false ∧ answers.read_fail = false)

instance (answers : Answers) : Decidable (Begins L answers) := inferInstanceAs (Decidable (_ ∧ (_ → _)))

/-- A save that returns 0 has completed, one that got as far as the erase and
    returns an error was stopped. -/
def note_saved (b : Board) (exported : Option (List UInt8)) (answers : Answers) : Int × Bytes × Gd → Board
  | (ret,flash,gd) =>
    match exported with
    | none => { b with flash := flash, gd := gd }
    | some data =>
      if ret = 0 then ⟨flash,gd,some data,[]⟩
      else if Begins L answers then { b with flash := flash, gd := gd, cut := data :: b.cut }
      else { b with flash := flash, gd := gd }

def step (upgrade : Bool) (b : Board) : Event L → Board
  | .boot => { b with gd := (env_sf_load sum L upgrade b.flash Gd.reset false false false false).2 }
  | .save exported answers =>
    note_saved L b (exported.map Subtype.val) answers (env_sf_save sum L b.flash b.gd (exported.map Subtype.val) answers)

/-- The save was stopped between the erase and the end of the write-back. -/
def StoppedInside : Event L → Prop
  | .save (some _) answers =>
    Begins L answers ∧ (answers.erase ≠ none ∨ answers.write ≠ none ∨ Embedded L ∧ answers.write_back ≠ none)
  | _ => False

def Outside (a : Nat) : Prop :=
  (a < L.offset ∨ L.offset+L.env_size ≤ a) ∧ (a < L.offset_redund ∨ L.offset_redund+L.env_size ≤ a)

def target (b : Board) : EnvT := env_at L.env_size b.flash (new_offset L b.gd.env_valid)

def kept (b : Board) : EnvT := env_at L.env_size b.flash (old_offset L b.gd.env_valid)

/-- The checksum tells that an erase or a write of the copy was stopped, unless
    that left the copy as it was or as it was meant to be. -/
def Detected (upgrade : Bool) (b : Board) : Event L → Prop
  | .save (some data) answers =>
    answers.erase ≠ none ∨ answers.write ≠ none →
      env_at L.env_size (step sum L upgrade b (.save (some data) answers)).flash (new_offset L b.gd.env_valid) ∈
          [target L b,⟨sum data.val,ENV_REDUND_ACTIVE,data.val⟩] ∨
        crc_ok sum (env_at L.env_size (step sum L upgrade b (.save (some data) answers)).flash
          (new_offset L b.gd.env_valid)) = false
  | _ => True

/-- After a completed save a boot imports the last completed one or one that
    was stopped after it, and an event that is not a save stopped inside leaves
    the bytes beside the copies alone. -/
structure Safe (upgrade : Bool) (b : Board) (e : Event L) : Prop where
  imports : e = .boot → ∀ data, b.completed = some data →
    ∃ got, (step sum L upgrade b e).gd.imported = some got ∧ (got = data ∨ got ∈ b.cut)
  intact : ¬StoppedInside L e → ∀ a, Outside L a → (step sum L upgrade b e).flash a = b.flash a

theorem env_bytes_length (env : EnvT) : (env_bytes env).length = env.data.length+ENV_HEADER_SIZE := by
  simp [env_bytes,le32,ENV_HEADER_SIZE]

theorem env_at_congr {size offset : Nat} {m m' : Bytes} (header : ENV_HEADER_SIZE ≤ size)
    (same : ∀ i, i < size → m (offset+i) = m' (offset+i)) : env_at size m offset = env_at size m' offset := by
  rw [ENV_HEADER_SIZE] at header
  have words : word m offset = word m' offset := word_congr (fun i inside => same i (by omega))
  have bytes : load m (offset+ENV_HEADER_SIZE) (size-ENV_HEADER_SIZE) =
      load m' (offset+ENV_HEADER_SIZE) (size-ENV_HEADER_SIZE) := by
    apply load_congr
    intro i inside
    rw [ENV_HEADER_SIZE] at inside
    have at_i := same (ENV_HEADER_SIZE+i) (by rw [ENV_HEADER_SIZE]; omega)
    rwa [← add_assoc] at at_i
  rw [env_at,env_at,words,bytes,same flags_offset (by rw [flags_offset]; omega)]

theorem env_at_store {size offset : Nat} {env : EnvT} (m : Bytes) (fills : env.data.length+ENV_HEADER_SIZE = size) :
    env_at size (store m offset (env_bytes env)) offset = env := by
  have split : store m offset (env_bytes env) =
      store (store (store m offset (le32 env.crc.toNat)) (offset+4) [env.flags]) (offset+5) env.data := by
    have bytes : env_bytes env = le32 env.crc.toNat ++ ([env.flags] ++ env.data) := rfl
    rw [bytes,store_append,store_append]
    rfl
  have crc : word (store m offset (env_bytes env)) offset = env.crc.toNat := by
    rw [split,word_store_apart _ (by simp),word_store_apart _ (by simp),word_store env.crc.toNat_lt]
  have flags : store m offset (env_bytes env) (offset+flags_offset) = env.flags := by
    rw [split,store_below _ _ (by simp [flags_offset]),flags_offset]
    exact store_inside (i := 0) _ rfl
  have data : load (store m offset (env_bytes env)) (offset+ENV_HEADER_SIZE) (size-ENV_HEADER_SIZE) = env.data := by
    rw [← fills,Nat.add_sub_cancel,split]
    exact load_store _ _ _
  rw [env_at,crc,flags,data,UInt32.ofNat_toNat]

theorem env_at_flags (size offset : Nat) (m : Bytes) (flags : UInt8) :
    env_at size (store m (offset+flags_offset) [flags]) offset = { env_at size m offset with flags := flags } := by
  have words : word (store m (offset+flags_offset) [flags]) offset = word m offset :=
    word_store_apart m (by simp [flags_offset])
  have bytes : load (store m (offset+flags_offset) [flags]) (offset+ENV_HEADER_SIZE) (size-ENV_HEADER_SIZE) =
      load m (offset+ENV_HEADER_SIZE) (size-ENV_HEADER_SIZE) :=
    load_store_apart m (.inr (by simp [flags_offset,ENV_HEADER_SIZE]))
  have byte : store m (offset+flags_offset) [flags] (offset+flags_offset) = flags := store_inside (i := 0) m rfl
  rw [env_at,words,bytes,byte,env_at]

theorem env_size_le : L.env_size ≤ erase_size L := le_roundUp L.env_size L.sector

theorem erase_apart (valid : EnvValid) :
    old_offset L valid+L.env_size ≤ new_offset L valid ∨ new_offset L valid+erase_size L ≤ old_offset L valid := by
  have reach {a b : Nat} (first : L.sect_size ∣ a) (second : L.sect_size ∣ b) (behind : a+L.env_size ≤ b) :
      a+erase_size L ≤ b := by
    have whole : erase_size L ≤ b-a := roundUp_le L.sector (Nat.dvd_sub second first) (by omega)
    omega
  rw [old_offset,new_offset]
  split
  · rcases L.apart with before | behind
    · exact .inl before
    · exact .inr (reach L.aligned_redund L.aligned behind)
  · rcases L.apart with before | behind
    · exact .inr (reach L.aligned L.aligned_redund before)
    · exact .inl behind

theorem erase_embedded (embedded : Embedded L) : erase_size L = L.env_size+saved_size L := by
  rw [Embedded] at embedded
  have header := L.header
  rw [ENV_HEADER_SIZE] at header
  have one : DIV_ROUND_UP L.env_size L.sect_size = 1 := by
    rw [DIV_ROUND_UP,Nat.div_eq_iff L.sector]
    omega
  rw [erase_size,one,saved_size]
  omega

def erased (m : Bytes) (valid : EnvValid) : Bytes :=
  store m (new_offset L valid) (List.replicate (erase_size L) 0xff)

def copied (m : Bytes) (valid : EnvValid) (env : EnvT) : Bytes :=
  store (erased L m valid) (new_offset L valid) (env_bytes env)

def restored (m : Bytes) (valid : EnvValid) (env : EnvT) : Bytes :=
  if Embedded L then
    store (copied L m valid env) (new_offset L valid+L.env_size) (load m (new_offset L valid+L.env_size) (saved_size L))
  else copied L m valid env

def active (data : List UInt8) : EnvT := ⟨sum data,ENV_REDUND_ACTIVE,data⟩

inductive Course (m : Bytes) (valid : EnvValid) (data : List UInt8) (answers : Answers) : Int → Bytes → Prop
  | erase {left : List UInt8} (stopped : answers.erase = some left) :
    Course m valid data answers (- EIO) (store m (new_offset L valid) (left.take (erase_size L)))
  | write {left : List UInt8} (done : answers.erase = none) (stopped : answers.write = some left) :
    Course m valid data answers (- EIO)
      (store (erased L m valid) (new_offset L valid) (left.take (env_bytes (active sum data)).length))
  | write_back {left : List UInt8} (embedded : Embedded L) (done : answers.erase = none ∧ answers.write = none)
    (stopped : answers.write_back = some left) :
    Course m valid data answers (- EIO)
      (store (copied L m valid (active sum data)) (new_offset L valid+L.env_size) (left.take (saved_size L)))
  | clear {left : List UInt8} (done : answers.erase = none ∧ answers.write = none)
    (stopped : answers.clear = some left) :
    Course m valid data answers (- EIO)
      (store (restored L m valid (active sum data)) (old_offset L valid+flags_offset) (left.take 1))
  | completes (done : answers.erase = none ∧ answers.write = none) :
    Course m valid data answers 0
      (store (restored L m valid (active sum data)) (old_offset L valid+flags_offset) [ENV_REDUND_OBSOLETE])

variable {sum L}

theorem env_sf_save_early (sum : List UInt8 → UInt32) (m : Bytes) (gd : Gd) {exported : Option (List UInt8)}
    {answers : Answers}
    (early : exported = none ∨ ¬Begins L answers) :
    ∃ ret gd', env_sf_save sum L m gd exported answers = (ret,m,gd') ∧ ret ≠ 0 ∧ gd'.env_valid = gd.env_valid := by
  cases setup : answers.setup_fail with
  | true => exact ⟨- EIO,env_set_default gd,by rw [env_sf_save,if_pos setup],by decide,rfl⟩
  | false =>
    cases exported with
    | none => exact ⟨- EIO,gd,by simp [env_sf_save,setup,env_export],by decide,rfl⟩
    | some data =>
      have embedded : Embedded L ∧ (answers.memalign_fail = true ∨ answers.read_fail = true) := by
        simpa [Begins,setup,imp_iff_not_or,and_comm] using early
      obtain ⟨embedded,fails⟩ := embedded
      cases memory : answers.memalign_fail with
      | true =>
        exact ⟨-ENOMEM,{ gd with env_flags := gd.env_flags+1 },
          by simp [env_sf_save,setup,env_export,embedded,memory],by decide,rfl⟩
      | false =>
        have read : answers.read_fail = true := by simpa [memory] using fails
        exact ⟨- EIO,{ gd with env_flags := gd.env_flags+1 },
          by simp [env_sf_save,setup,env_export,embedded,memory,read],by decide,rfl⟩

theorem env_sf_save_course (sum : List UInt8 → UInt32) (m : Bytes) (gd : Gd) (data : List UInt8) {answers : Answers}
    (begins : Begins L answers) :
    ∃ ret m', env_sf_save sum L m gd (some data) answers =
        (ret,m',⟨if ret = 0 then toggled gd.env_valid else gd.env_valid,gd.env_flags+1,gd.imported⟩) ∧
      Course sum L m gd.env_valid data answers ret m' := by
  obtain ⟨setup,memory⟩ := begins
  have allocated : ¬(Embedded L ∧ answers.memalign_fail = true) := by
    rintro ⟨embedded,fails⟩
    simp [(memory embedded).1] at fails
  have read : ¬(Embedded L ∧ answers.read_fail = true) := by
    rintro ⟨embedded,fails⟩
    simp [(memory embedded).2] at fails
  have error : ¬(- EIO : Int) = 0 := by decide
  cases erase : answers.erase with
  | some left =>
    refine ⟨_,_,?_,Course.erase erase⟩
    simp [env_sf_save,setup,env_export,allocated,read,spi_flash_erase,erase,error]
  | none =>
    cases write : answers.write with
    | some left =>
      refine ⟨_,_,?_,Course.write erase write⟩
      simp [env_sf_save,setup,env_export,allocated,read,spi_flash_erase,spi_flash_write,erase,write,error,erased,active]
    | none =>
      by_cases embedded : Embedded L
      · obtain ⟨allocated,read⟩ := memory embedded
        cases write_back : answers.write_back with
        | some left =>
          refine ⟨_,_,?_,Course.write_back embedded ⟨erase,write⟩ write_back⟩
          simp [env_sf_save,setup,env_export,allocated,read,spi_flash_erase,spi_flash_write,erase,write,write_back,
            error,erased,copied,active,embedded]
        | none =>
          cases clear : answers.clear with
          | some left =>
            refine ⟨_,_,?_,Course.clear ⟨erase,write⟩ clear⟩
            simp [env_sf_save,setup,env_export,allocated,read,spi_flash_erase,spi_flash_write,erase,write,write_back,
              clear,error,erased,copied,restored,active,embedded]
          | none =>
            refine ⟨_,_,?_,Course.completes ⟨erase,write⟩⟩
            simp [env_sf_save,setup,env_export,allocated,read,spi_flash_erase,spi_flash_write,erase,write,write_back,
              clear,erased,copied,restored,active,embedded,toggled]
      · cases clear : answers.clear with
        | some left =>
          refine ⟨_,_,?_,Course.clear ⟨erase,write⟩ clear⟩
          simp [env_sf_save,setup,env_export,spi_flash_erase,spi_flash_write,erase,write,
            clear,error,erased,copied,restored,active,embedded]
        | none =>
          refine ⟨_,_,?_,Course.completes ⟨erase,write⟩⟩
          simp [env_sf_save,setup,env_export,spi_flash_erase,spi_flash_write,erase,write,
            clear,erased,copied,restored,active,embedded,toggled]

def Covered (L : Layout) : Prop := L.env_size < L.sect_size ∨ L.sect_size ∣ L.env_size

section
variable {m m' : Bytes} {valid : EnvValid} {data : List UInt8} {answers : Answers} {ret : Int}

variable {a : Nat} {b : Board} {upgrade : Bool}

theorem erased_outside (outside : a < new_offset L valid ∨ new_offset L valid+erase_size L ≤ a) :
    erased L m valid a = m a := by
  rcases outside with below | above
  · exact store_below m _ below
  · exact store_above m _ (by simpa using above)

theorem active_length (fills : data.length+ENV_HEADER_SIZE = L.env_size) :
    (env_bytes (active sum data)).length = L.env_size := by
  rw [env_bytes_length,active,fills]

theorem copied_outside (fills : data.length+ENV_HEADER_SIZE = L.env_size)
    (outside : a < new_offset L valid ∨ new_offset L valid+L.env_size ≤ a) :
    copied L m valid (active sum data) a = erased L m valid a := by
  rcases outside with below | above
  · exact store_below _ _ below
  · exact store_above _ _ (by rwa [active_length fills])

theorem copied_target (fills : data.length+ENV_HEADER_SIZE = L.env_size) :
    env_at L.env_size (copied L m valid (active sum data)) (new_offset L valid) = active sum data :=
  env_at_store _ fills

theorem env_at_behind (m : Bytes) (offset : Nat) (bytes : List UInt8) :
    env_at L.env_size (store m (offset+L.env_size) bytes) offset = env_at L.env_size m offset := by
  apply env_at_congr L.header
  intro i inside
  exact store_below m bytes (by omega)

theorem restored_target (fills : data.length+ENV_HEADER_SIZE = L.env_size) :
    env_at L.env_size (restored L m valid (active sum data)) (new_offset L valid) = active sum data := by
  rw [restored]
  split
  · rw [env_at_behind,copied_target fills]
  · exact copied_target fills

theorem restored_outside (fills : data.length+ENV_HEADER_SIZE = L.env_size)
    (outside : a < new_offset L valid ∨ new_offset L valid+erase_size L ≤ a) :
    restored L m valid (active sum data) a = m a := by
  have large := env_size_le L
  have copy : copied L m valid (active sum data) a = m a := by
    rw [copied_outside fills (by omega),erased_outside outside]
  rw [restored]
  split
  next embedded =>
    have whole := erase_embedded L embedded
    rcases outside with below | above
    · rw [store_below _ _ (by omega),copy]
    · rw [store_above _ _ (by rw [load_length]; omega),copy]
  next => exact copy

theorem restored_beside (covered : Covered L) (fills : data.length+ENV_HEADER_SIZE = L.env_size)
    (beside : a < new_offset L valid ∨ new_offset L valid+L.env_size ≤ a) :
    restored L m valid (active sum data) a = m a := by
  set behind := new_offset L valid+L.env_size
  by_cases outside : a < new_offset L valid ∨ new_offset L valid+erase_size L ≤ a
  · exact restored_outside fills outside
  by_cases embedded : Embedded L
  · -- The rest of the sector is written back.
    have whole := erase_embedded L embedded
    have inside : (load m behind (saved_size L))[a-behind]? =
        some (m a) := by
      have small : a-behind < saved_size L := by omega
      simp only [load,getElem?_map,getElem?_range small,map_some]
      congr 2
      omega
    have place : behind+(a-behind) = a := by omega
    have written := store_inside (copied L m valid (active sum data)) (a := behind) inside
    rw [place] at written
    rw [restored,if_pos embedded,written]
  · -- The sectors end where the copy does.
    have multiple : L.sect_size ∣ L.env_size := covered.resolve_left embedded
    have whole : erase_size L = L.env_size := (roundUp_eq_self L.sector).mpr multiple
    omega

theorem flags_apart (valid : EnvValid) :
    old_offset L valid+flags_offset < new_offset L valid ∨
      new_offset L valid+erase_size L ≤ old_offset L valid+flags_offset := by
  have header := L.header
  rw [ENV_HEADER_SIZE] at header
  rw [flags_offset]
  rcases erase_apart L valid with before | behind
  · exact .inl (by omega)
  · exact .inr (by omega)

theorem course_target (course : Course sum L m valid data answers ret m')
    (fills : data.length+ENV_HEADER_SIZE = L.env_size) (done : answers.erase = none ∧ answers.write = none) :
    env_at L.env_size m' (new_offset L valid) = active sum data := by
  have flags (bytes : List UInt8) (short : bytes.length ≤ 1) :
      env_at L.env_size (store (restored L m valid (active sum data)) (old_offset L valid+flags_offset) bytes)
        (new_offset L valid) = active sum data := by
    refine Eq.trans (env_at_congr L.header ?_) (restored_target fills (m := m))
    intro i inside
    have large := env_size_le L
    rcases flags_apart (L := L) valid with before | behind
    · exact store_above _ _ (by omega)
    · exact store_below _ _ (by omega)
  cases course with
  | erase stopped => simp [done.1] at stopped
  | write _ stopped => simp [done.2] at stopped
  | write_back embedded _ stopped => rw [env_at_behind,copied_target fills]
  | clear _ stopped | completes _ => exact flags _ (by simp)

theorem kept_congr {m₁ m₂ : Bytes}
    (same : ∀ a, a < new_offset L valid ∨ new_offset L valid+erase_size L ≤ a → m₁ a = m₂ a) :
    env_at L.env_size m₁ (old_offset L valid) = env_at L.env_size m₂ (old_offset L valid) := by
  apply env_at_congr L.header
  intro i inside
  apply same
  rcases erase_apart L valid with before | behind
  · exact .inl (by omega)
  · exact .inr (by omega)

theorem course_kept (course : Course sum L m valid data answers ret m')
    (fills : data.length+ENV_HEADER_SIZE = L.env_size) :
    ∃ flags, env_at L.env_size m' (old_offset L valid) =
        { env_at L.env_size m (old_offset L valid) with flags := flags } ∧
      (ret = 0 → flags = ENV_REDUND_OBSOLETE) ∧
      (answers.erase ≠ none ∨ answers.write ≠ none → flags = (env_at L.env_size m (old_offset L valid)).flags) := by
  have error : ¬(- EIO : Int) = 0 := by decide
  have same_restored : env_at L.env_size (restored L m valid (active sum data)) (old_offset L valid) =
      env_at L.env_size m (old_offset L valid) := kept_congr (fun a outside => restored_outside fills outside)
  have large := env_size_le L
  cases course with
  | @erase left stopped =>
    refine ⟨_,?_,fun zero => absurd zero error,fun _ => rfl⟩
    apply kept_congr
    rintro a (below | above)
    · exact store_below _ _ below
    · exact store_above _ _ (by simp only [length_take]; omega)
  | @write left _ stopped =>
    refine ⟨_,?_,fun zero => absurd zero error,fun _ => rfl⟩
    apply kept_congr
    intro a outside
    rw [← erased_outside (m := m) outside]
    rcases outside with below | above
    · exact store_below _ _ below
    · exact store_above _ _ (by rw [length_take,active_length fills]; omega)
  | @write_back left embedded _ stopped =>
    refine ⟨_,?_,fun zero => absurd zero error,fun _ => rfl⟩
    apply kept_congr
    intro a outside
    have whole := erase_embedded L embedded
    have copy : copied L m valid (active sum data) a = m a := by
      rw [copied_outside fills (by omega),erased_outside outside]
    rw [← copy]
    rcases outside with below | above
    · exact store_below _ _ (by omega)
    · exact store_above _ _ (by rw [length_take]; omega)
  | @clear left done stopped =>
    have unstopped : ¬(answers.erase ≠ none ∨ answers.write ≠ none) := by simp [done]
    cases left with
    | nil =>
      refine ⟨(env_at L.env_size m (old_offset L valid)).flags,?_,fun zero => absurd zero error,fun _ => rfl⟩
      simpa using same_restored
    | cons flags rest =>
      refine ⟨flags,?_,fun zero => absurd zero error,fun before => absurd before unstopped⟩
      rw [← same_restored]
      exact env_at_flags _ _ _ flags
  | completes done =>
    have unstopped : ¬(answers.erase ≠ none ∨ answers.write ≠ none) := by simp [done]
    refine ⟨_,?_,fun _ => rfl,fun before => absurd before unstopped⟩
    rw [← same_restored]
    exact env_at_flags _ _ _ _

theorem course_intact (course : Course sum L m valid data answers ret m') (covered : Covered L)
    (fills : data.length+ENV_HEADER_SIZE = L.env_size)
    (whole : answers.erase = none ∧ answers.write = none ∧ (Embedded L → answers.write_back = none))
    (outside : Outside L a) : m' a = m a := by
  have header := L.header
  rw [ENV_HEADER_SIZE] at header
  have beside_new : a < new_offset L valid ∨ new_offset L valid+L.env_size ≤ a := by
    rw [new_offset]
    split
    · exact outside.2
    · exact outside.1
  have beside_old : a < old_offset L valid ∨ old_offset L valid+L.env_size ≤ a := by
    rw [old_offset]
    split
    · exact outside.1
    · exact outside.2
  have flags (bytes : List UInt8) (short : bytes.length ≤ 1) :
      store (restored L m valid (active sum data)) (old_offset L valid+flags_offset) bytes a = m a := by
    rw [← restored_beside (m := m) covered fills beside_new,flags_offset]
    rcases beside_old with below | above
    · exact store_below _ _ (by omega)
    · exact store_above _ _ (by omega)
  cases course with
  | erase stopped => simp [whole.1] at stopped
  | write _ stopped => simp [whole.2.1] at stopped
  | write_back embedded _ stopped => simp [whole.2.2 embedded] at stopped
  | clear _ stopped | completes _ => exact flags _ (by simp)

end

def copy1 (L : Layout) (b : Board) : EnvT := env_at L.env_size b.flash L.offset
def copy2 (L : Layout) (b : Board) : EnvT := env_at L.env_size b.flash L.offset_redund

/-- `got` is the last completed save or one that was stopped after it. -/
def Recent (b : Board) (data got : List UInt8) : Prop := got = data ∨ got ∈ b.cut

/-- Both the copy that `env_valid` names and the one that a boot would choose
    are recent. -/
structure Holds (sum : List UInt8 → UInt32) (L : Layout) (b : Board) (data : List UInt8) : Prop where
  good : crc_ok sum (kept L b) = true
  current : Recent b data (kept L b).data
  next : Recent b data (named (chosen sum (copy1 L b) (copy2 L b)) (copy1 L b) (copy2 L b)).data

def Inv (sum : List UInt8 → UInt32) (L : Layout) (b : Board) : Prop :=
  ∀ data, b.completed = some data → Holds sum L b data

theorem kept_eq (b : Board) : kept L b = named b.gd.env_valid (copy1 L b) (copy2 L b) := by
  rw [kept,old_offset,named]
  split <;> rfl

theorem chosen_cases (sum : List UInt8 → UInt32) (L : Layout) (b : Board) :
    named (chosen sum (copy1 L b) (copy2 L b)) (copy1 L b) (copy2 L b) = kept L b ∨
      named (chosen sum (copy1 L b) (copy2 L b)) (copy1 L b) (copy2 L b) = target L b := by
  rw [kept,target,old_offset,new_offset,named]
  split <;> split <;> simp [copy1,copy2]

theorem found_of_kept (good : crc_ok sum (kept L b) = true) : ¬Lost sum (copy1 L b) (copy2 L b) := by
  rintro ⟨first,second⟩
  rw [kept_eq,named] at good
  split at good
  · simp [first] at good
  · simp [second] at good

/-- A boot imports the chosen copy. -/
theorem step_boot {data : List UInt8} (holds : Holds sum L b data) :
    step sum L upgrade b .boot =
      { b with gd := ⟨chosen sum (copy1 L b) (copy2 L b),
        (named (chosen sum (copy1 L b) (copy2 L b)) (copy1 L b) (copy2 L b)).flags,
        some (named (chosen sum (copy1 L b) (copy2 L b)) (copy1 L b) (copy2 L b)).data⟩ } := by
  have found := found_of_kept holds.good
  rw [copy1,copy2] at found
  simp [step,env_sf_load,env_import_redund_found found,copy1,copy2]

theorem step_early (sum : List UInt8 → UInt32) (upgrade : Bool) (b : Board) {exported : Option (Data L)} {answers : Answers}
    (early : exported = none ∨ ¬Begins L answers) :
    ∃ gd, gd.env_valid = b.gd.env_valid ∧ step sum L upgrade b (.save exported answers) = { b with gd := gd } := by
  obtain ⟨ret,gd,saves,fails,same⟩ := env_sf_save_early sum b.flash b.gd (L := L)
    (show exported.map Subtype.val = none ∨ ¬Begins L answers by simpa using early)
  refine ⟨gd,same,?_⟩
  rw [step,saves]
  cases exported with
  | none => rfl
  | some data =>
    have stops : ¬Begins L answers := by simpa using early
    simp [note_saved,fails,stops]

theorem step_course (sum : List UInt8 → UInt32) (upgrade : Bool) (b : Board) (data : Data L) {answers : Answers}
    (begins : Begins L answers) :
    ∃ ret m', Course sum L b.flash b.gd.env_valid data.val answers ret m' ∧
      step sum L upgrade b (.save (some data) answers) =
        if ret = 0 then ⟨m',⟨toggled b.gd.env_valid,b.gd.env_flags+1,b.gd.imported⟩,some data.val,[]⟩
        else ⟨m',{ b.gd with env_flags := b.gd.env_flags+1 },b.completed,data.val :: b.cut⟩ := by
  obtain ⟨ret,m',saves,course⟩ := env_sf_save_course sum b.flash b.gd data.val begins
  refine ⟨ret,m',course,?_⟩
  rw [step,map_some,saves,note_saved]
  by_cases zero : ret = 0
  · simp [zero]
  · simp [zero,begins]

theorem old_offset_toggled (valid : EnvValid) : old_offset L (toggled valid) = new_offset L valid := by
  rw [toggled]
  split <;> simp_all [old_offset,new_offset]

theorem new_offset_toggled (valid : EnvValid) : new_offset L (toggled valid) = old_offset L valid := by
  rw [toggled]
  split <;> simp_all [old_offset,new_offset]

theorem holds_completed {data : List UInt8} (written : kept L b = active sum data)
    (obsolete : (target L b).flags = ENV_REDUND_OBSOLETE) : Holds sum L b data := by
  have good : crc_ok sum (kept L b) = true := by
    rw [written]
    exact crc_ok_exported _ _
  have current : Recent b data (kept L b).data := .inl (by rw [written,active])
  refine ⟨good,current,?_⟩
  have supersedes (first : Bool) : Supersedes first (kept L b).flags (target L b).flags := by
    rw [written,obsolete]
    show Supersedes first ENV_REDUND_ACTIVE ENV_REDUND_OBSOLETE
    cases first <;> decide
  have picked : named (chosen sum (copy1 L b) (copy2 L b)) (copy1 L b) (copy2 L b) = kept L b := by
    by_cases first : b.gd.env_valid = .ENV_VALID
    · have current_first : kept L b = copy1 L b := by rw [kept,old_offset,if_pos first,copy1]
      have other_second : target L b = copy2 L b := by rw [target,new_offset,if_pos first,copy2]
      rw [current_first,other_second] at supersedes
      rw [current_first] at good ⊢
      rw [(chosen_first good).mpr (fun _ => supersedes true),named,if_pos rfl]
    · have current_second : kept L b = copy2 L b := by rw [kept,old_offset,if_neg first,copy2]
      have other_first : target L b = copy1 L b := by rw [target,new_offset,if_neg first,copy1]
      rw [current_second,other_first] at supersedes
      rw [current_second] at good ⊢
      rw [(chosen_second good).mpr (fun _ => supersedes false),named,if_neg (by decide)]
  rw [picked]
  exact current

theorem chosen_kept (good : crc_ok sum (kept L b) = true) (bad : crc_ok sum (target L b) = false) :
    named (chosen sum (copy1 L b) (copy2 L b)) (copy1 L b) (copy2 L b) = kept L b := by
  rcases chosen_cases sum L b with same | other
  · exact same
  · have right := chosen_good (found_of_kept good)
    rw [other,bad] at right
    cases right

theorem copies_eq {b b' : Board} (valid : b'.gd.env_valid = b.gd.env_valid) (same_kept : kept L b' = kept L b)
    (same_target : target L b' = target L b) : copy1 L b' = copy1 L b ∧ copy2 L b' = copy2 L b := by
  rw [kept,kept,old_offset,old_offset,valid] at same_kept
  rw [target,target,new_offset,new_offset,valid] at same_target
  by_cases first : b.gd.env_valid = .ENV_VALID
  · rw [if_pos first] at same_kept same_target
    exact ⟨same_kept,same_target⟩
  · rw [if_neg first] at same_kept same_target
    exact ⟨same_target,same_kept⟩

theorem holds_stopped {b b' : Board} {data last : List UInt8} {flags : UInt8} (holds : Holds sum L b last)
    (valid : b'.gd.env_valid = b.gd.env_valid) (cut : b'.cut = data :: b.cut)
    (same_kept : kept L b' = { kept L b with flags := flags })
    (left : target L b' = active sum data ∨ crc_ok sum (target L b') = false ∨
      target L b' = target L b ∧ flags = (kept L b).flags) : Holds sum L b' last := by
  have wider {got : List UInt8} (recent : Recent b last got) : Recent b' last got := by
    rcases recent with same | member
    · exact .inl same
    · exact .inr (by rw [cut]; exact mem_cons_of_mem _ member)
  have good : crc_ok sum (kept L b') = true := by
    rw [same_kept]
    exact holds.good
  have current : Recent b' last (kept L b').data := by
    rw [same_kept]
    exact wider holds.current
  refine ⟨good,current,?_⟩
  rcases left with new | bad | ⟨old,unmarked⟩
  · rcases chosen_cases sum L b' with same | other
    · rw [same]
      exact current
    · rw [other,new]
      exact .inr (by rw [cut,active]; exact mem_cons_self)
  · rw [chosen_kept good bad]
    exact current
  · have unchanged : kept L b' = kept L b := by rw [same_kept,unmarked]
    obtain ⟨first,second⟩ := copies_eq valid unchanged old
    rw [first,second]
    exact wider holds.next

theorem inv_course {data : Data L} {answers : Answers} (begins : Begins L answers)
    (inv : Inv sum L b) (detected : Detected sum L upgrade b (.save (some data) answers)) :
    Inv sum L (step sum L upgrade b (.save (some data) answers)) := by
  obtain ⟨ret,m',course,saves⟩ := step_course sum upgrade b data begins
  obtain ⟨flags,same_kept,obsolete,unmarked⟩ := course_kept course data.property
  rw [Detected,saves] at detected
  rw [saves]
  intro last completed
  by_cases zero : ret = 0
  · rw [if_pos zero] at completed ⊢
    cases completed
    have done : answers.erase = none ∧ answers.write = none := by
      cases course with
      | completes done => exact done
      | _ => exact absurd zero (by decide)
    refine holds_completed ?_ ?_
    · rw [kept,old_offset_toggled]
      exact course_target course data.property done
    · rw [target,new_offset_toggled,same_kept]
      exact obsolete zero
  · rw [if_neg zero] at completed detected ⊢
    refine holds_stopped (inv last completed) rfl rfl same_kept ?_
    by_cases stopped : answers.erase ≠ none ∨ answers.write ≠ none
    · rcases detected stopped with whole | bad
      · rcases mem_pair.mp whole with old | new
        · exact .inr (.inr ⟨old,unmarked stopped⟩)
        · exact .inl new
      · exact .inr (.inl bad)
    · rw [not_or,not_not,not_not] at stopped
      exact .inl (course_target course data.property stopped)

theorem inv_step (e : Event L) (inv : Inv sum L b)
    (detected : Detected sum L upgrade b e) : Inv sum L (step sum L upgrade b e) := by
  cases e with
  | boot =>
    intro last completed
    have holds := inv last completed
    rw [step_boot holds]
    refine ⟨?_,?_,holds.next⟩
    · rw [kept_eq]
      exact chosen_good (found_of_kept holds.good)
    · rw [kept_eq]
      exact holds.next
  | save exported answers =>
    by_cases early : exported = none ∨ ¬Begins L answers
    · obtain ⟨gd,valid,saves⟩ := step_early sum upgrade b early
      rw [saves]
      intro last completed
      have holds := inv last completed
      have same : kept L { b with gd := gd } = kept L b := by rw [kept,kept,valid]
      exact ⟨by rw [same]; exact holds.good,by rw [same]; exact holds.current,holds.next⟩
    · rw [not_or,not_not] at early
      obtain ⟨data,rfl⟩ := ne_none_iff_exists'.mp early.1
      exact inv_course early.2 inv detected

theorem step_intact {e : Event L} (covered : Covered L) (unstopped : ¬StoppedInside L e) (outside : Outside L a) : (step sum L upgrade b e).flash a = b.flash a := by
  cases e with
  | boot => rfl
  | save exported answers =>
    by_cases early : exported = none ∨ ¬Begins L answers
    · obtain ⟨gd,_,saves⟩ := step_early sum upgrade b early
      rw [saves]
    rw [not_or,not_not] at early
    obtain ⟨data,rfl⟩ := ne_none_iff_exists'.mp early.1
    obtain ⟨ret,m',course,saves⟩ := step_course sum upgrade b data early.2
    have whole : answers.erase = none ∧ answers.write = none ∧ (Embedded L → answers.write_back = none) := by
      simpa [StoppedInside,early.2] using unstopped
    have same := course_intact course covered data.property whole outside
    rw [saves]
    split <;> exact same

theorem step_safe {e : Event L} (covered : Covered L) (inv : Inv sum L b) :
    Safe sum L upgrade b e := by
  refine ⟨?_,fun unstopped a outside => step_intact covered unstopped outside⟩
  rintro rfl data completed
  have holds := inv data completed
  rw [step_boot holds]
  exact ⟨_,rfl,holds.next⟩

theorem step_good (b : Board) (data : Data L) :
    step sum L upgrade b (.save (some data) Answers.good) =
      ⟨store (restored L b.flash b.gd.env_valid (active sum data.val)) (old_offset L b.gd.env_valid+flags_offset)
        [ENV_REDUND_OBSOLETE],⟨toggled b.gd.env_valid,b.gd.env_flags+1,b.gd.imported⟩,some data.val,[]⟩ := by
  have begins : Begins L Answers.good := ⟨rfl,fun _ => ⟨rfl,rfl⟩⟩
  obtain ⟨ret,m',course,saves⟩ := step_course sum upgrade b data begins
  rw [saves]
  cases course with
  | erase stopped | write _ stopped | write_back _ _ stopped | clear _ stopped => simp [Answers.good] at stopped
  | completes done => rfl

theorem good_outside (data : Data L)
    (outside : a < new_offset L b.gd.env_valid ∨ new_offset L b.gd.env_valid+erase_size L ≤ a)
    (unflagged : a < old_offset L b.gd.env_valid+flags_offset ∨ old_offset L b.gd.env_valid+flags_offset < a) :
    (step sum L upgrade b (.save (some data) Answers.good)).flash a = b.flash a := by
  have same : restored L b.flash b.gd.env_valid (active sum data.val) a = b.flash a :=
    restored_outside data.property outside
  rw [step_good,← same]
  rcases unflagged with below | above
  · exact store_below _ _ below
  · exact store_above _ _ above

theorem save_loses (uncovered : ¬Covered L) (data : Data L)
    (unerased : b.flash (new_offset L b.gd.env_valid+L.env_size) ≠ 0xff) :
    ¬Safe sum L upgrade b (.save (some data) Answers.good) := by
  intro safe
  have unembedded : ¬Embedded L := fun embedded => uncovered (.inl embedded)
  have larger : L.env_size < erase_size L := by
    refine lt_of_le_of_ne (env_size_le L) (fun same => uncovered (.inr ?_))
    exact (roundUp_eq_self L.sector).mp same.symm
  have header := L.header
  rw [ENV_HEADER_SIZE] at header
  have apart := erase_apart L b.gd.env_valid
  have outside : Outside L (new_offset L b.gd.env_valid+L.env_size) := by
    rw [Outside]
    rw [new_offset,old_offset] at *
    split at apart
    next first =>
      rw [if_pos first]
      omega
    next second =>
      rw [if_neg second]
      omega
  have same := safe.intact (by simp [StoppedInside,Answers.good]) _ outside
  rw [step_good] at same
  have lost : erased L b.flash b.gd.env_valid (new_offset L b.gd.env_valid+L.env_size) = 0xff := by
    apply store_inside
    rw [getElem?_replicate,if_pos larger]
  have unmoved : restored L b.flash b.gd.env_valid (active sum data.val) (new_offset L b.gd.env_valid+L.env_size) =
      0xff := by
    rw [restored,if_neg unembedded,copied_outside data.property (.inr le_rfl),lost]
  apply unerased
  rw [← same,← unmoved,flags_offset]
  rcases apart with before | behind
  · exact store_above _ _ (by simp only [length_singleton]; omega)
  · exact store_below _ _ (by omega)

theorem detected_good (b : Board) (data : Data L) :
    Detected sum L upgrade b (.save (some data) Answers.good) := by
  rintro (erase | write)
  · exact absurd rfl erase
  · exact absurd rfl write

end

def empty_data (L : Layout) : Data L :=
  ⟨List.replicate (L.env_size-ENV_HEADER_SIZE) 0,by rw [List.length_replicate]; exact Nat.sub_add_cancel L.header⟩

/-- Along every run of saves, cuts, errors and boots that the checksum keeps up
    with, after a completed save. -/
def PowerFailSafe (sum : List UInt8 → UInt32) (L : Layout) : Prop :=
  ∀ (upgrade : Bool) (flash : Bytes) (gd : Gd) (events : List (Event L)),
    Along (step sum L upgrade) (Detected sum L upgrade) ⟨flash,gd,none,[]⟩ events →
      Along (step sum L upgrade) (Safe sum L upgrade) ⟨flash,gd,none,[]⟩ events

/-- The saves are safe against cuts exactly where one sector is larger than a
    copy or the copy fills its sectors. -/
theorem power_fail_safe_iff (sum : List UInt8 → UInt32) (L : Layout) :
    PowerFailSafe sum L ↔ L.env_size < L.sect_size ∨ L.sect_size ∣ L.env_size := by
  constructor
  · intro safe
    by_contra uncovered
    have along := safe false (fun _ => 0) Gd.reset [.save (some (empty_data L)) Answers.good]
      ⟨detected_good _ _,trivial⟩
    exact save_loses uncovered _ (by decide : (0 : UInt8) ≠ 0xff) along.1
  · intro covered upgrade flash gd events detected
    have start : Inv sum L ⟨flash,gd,none,[]⟩ := by
      intro data completed
      cases completed
    apply along_of_invariant (fun b e inv detected => inv_step e inv detected) _ start detected
    intro b e inv _
    exact step_safe covered inv

def half_filled : Layout where
  env_size := 0x1800
  sect_size := 0x1000
  offset := 0x100000
  offset_redund := 0x102000
  header := by decide
  sector := by decide
  aligned := by decide
  aligned_redund := by decide
  apart := by decide

/-- After a completed save the next one, nothing of which is cut, erases the
    half of a sector behind its copy and does not write it back. -/
theorem half_filled_not_safe :
    ¬Along (step crc32 half_filled false) (fun b e => b.completed ≠ none → Safe crc32 half_filled false b e)
      ⟨fun _ => 0,Gd.reset,none,[]⟩
      [.save (some (empty_data half_filled)) Answers.good,.save (some (empty_data half_filled)) Answers.good] := by
  generalize empty_data half_filled = data
  intro along
  have second := along.2.1 (by rw [step_good]; simp)
  have uncovered : ¬Covered half_filled := by
    rintro (larger | ⟨k,multiple⟩)
    · exact absurd larger (by decide)
    · have whole : 0x1800 = 0x1000*k := multiple
      omega
  refine save_loses uncovered _ ?_ second
  have valid : (step crc32 half_filled false ⟨fun _ => 0,Gd.reset,none,[]⟩ (.save (some data) Answers.good)).gd.env_valid =
      .ENV_VALID := by
    rw [step_good]
    rfl
  rw [valid,new_offset,if_pos rfl,good_outside data (.inr (by decide +kernel)) (.inr (by decide +kernel))]
  decide

end UBoot.Env.Sf
