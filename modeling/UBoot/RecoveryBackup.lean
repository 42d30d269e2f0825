import UBoot.RecoveryResolve

/-!
The download of a partition from the recovery server, `fs_read_custom` of
`net/lwip/httpd_recovery.c` on a file of `recovery_open_mtd_backup`: a header is
sent from memory and then the partition straight from the device, in pieces of
whatever size the server has room for.
-/
namespace UBoot.Recovery
open UBoot.Memory List Option

section
variable {World : Type}

def INT_MAX : Nat := 2^31-1

/-- The room for the header in `struct recovery_backup_stream`. -/
def backup_header_room : Nat := 256

/-- A file that is served from a device, with the stream behind it. That a read
    failed is only printed; here it is counted. -/
structure Backup (World : Type) where
  header : List UInt8
  header_pos : Nat
  body_pos : Nat
  len : Nat
  index : Nat
  failures : Nat
  world : World

def backup_of (p : String) : Option (String × String) :=
  if p = "backup/env.bin" then some ("uenv","env-2m.bin")
  else if p = "backup/uenv.bin" then some ("uenv","uenv-2m.bin")
  else if p = "backup/dsd.bin" then some ("dsd","dsd-2m.bin")
  else if p = "backup/uboot.bin" then some ("bootloader","mtd0-bootloader-2m.bin")
  else none

def backup_header (filename : String) : List UInt8 :=
  ("HTTP/1.0 200 OK\r\nContent-Type: application/octet-stream\r\nContent-Disposition: attachment; filename=\"" ++
    filename ++ "\"\r\nCache-Control: no-store\r\nContent-Length: " ++ toString RECOVERY_RAW_PART_SIZE ++
    "\r\nConnection: close\r\n\r\n").toList.map fun c => UInt8.ofNat c.toNat

/-- `found` is what looking up the partition gives, `memory` whether the stream
    could be allocated. -/
def recovery_open_mtd_backup (found : Except Errno (Mtd World)) (filename : String) (memory : Bool) (world : World) :
    Option (Mtd World × Backup World) :=
  match found with
  | .error _ => none
  | .ok mtd =>
    let header := backup_header filename
    let total_len := header.length+RECOVERY_RAW_PART_SIZE
    if mtd.size ≠ RECOVERY_RAW_PART_SIZE then none
    else if memory = false then none
    else if header.length ≥ backup_header_room then none
    else if total_len > INT_MAX then none
    else some (mtd,⟨header,0,0,total_len,0,0,world⟩)

/-- The loop of `recovery_read_mtd_backup` with `left` for `count-copied`: the
    bytes that are put behind each other in the buffer. Each round fills at
    least one byte or is the last. -/
def backup_loop (mtd : Mtd World) : Nat → Nat → Backup World → List UInt8 × Backup World
  | 0, _, f => ([],f)
  | fuel+1, left, f =>
    if 0 < left ∧ f.index < f.len then
      if f.header_pos < f.header.length then
        let chunk := min left (f.header.length-f.header_pos)
        let bytes := (f.header.drop f.header_pos).take chunk
        let r := backup_loop mtd fuel (left-chunk) { f with header_pos := f.header_pos+chunk, index := f.index+chunk }
        (bytes ++ r.1,r.2)
      else if f.body_pos < RECOVERY_RAW_PART_SIZE then
        let chunk := min left (RECOVERY_RAW_PART_SIZE-f.body_pos)
        let answer := mtd.read f.world f.body_pos chunk
        if (answer.1 ≠ 0 ∧ answer.1 ≠ -EUCLEAN) ∨ answer.2.1 ≠ chunk then
          ([],{ f with index := f.len, failures := f.failures+1, world := answer.2.2.2 })
        else
          let r := backup_loop mtd fuel (left-chunk)
            { f with body_pos := f.body_pos+chunk, index := f.index+chunk, world := answer.2.2.2 }
          (answer.2.2.1 ++ r.1,r.2)
      else ([],f)
    else ([],f)

def fs_read_custom (mtd : Mtd World) (count : Nat) (f : Backup World) : Option (List UInt8) × Backup World :=
  if count = 0 then (none,f)
  else
    let r := backup_loop mtd count count f
    (if r.1 = [] then none else some r.1,r.2)

def fs_reads (mtd : Mtd World) : List Nat → Backup World → List (Option (List UInt8)) × Backup World
  | [], f => ([],f)
  | count :: counts, f =>
    let r := fs_read_custom mtd count f
    let rest := fs_reads mtd counts r.2
    (r.1 :: rest.1,rest.2)

def delivered (results : List (Option (List UInt8))) : List UInt8 := (results.map (·.getD [])).flatten

def whole (mtd : Mtd World) (header : List UInt8) (world : World) : List UInt8 :=
  header ++ load (mtd.content world) 0 RECOVERY_RAW_PART_SIZE

/-- Where the next byte is taken from, counted over header and partition. -/
def Backup.pos (f : Backup World) : Nat := f.header_pos+f.body_pos

/-- The three cursors agree, and the partition is as it was. A read that failed
    leaves the index at the end. -/
structure Serving (mtd : Mtd World) (opened f : Backup World) : Prop where
  header : f.header = opened.header
  len : f.len = opened.header.length+RECOVERY_RAW_PART_SIZE
  header_pos : f.header_pos ≤ f.header.length
  body_pos : f.body_pos ≤ RECOVERY_RAW_PART_SIZE
  in_turn : f.header_pos < f.header.length → f.body_pos = 0
  index : f.failures = 0 → f.index = f.pos
  ended : 0 < f.failures → f.index = f.len
  stays : mtd.content f.world = mtd.content opened.world

/-- What a part of a read does: it copies what comes next, and stops short only
    at the end or where the device fails. -/
structure Copied (mtd : Mtd World) (opened : Backup World) (left : Nat) (f : Backup World)
    (r : List UInt8 × Backup World) : Prop where
  serving : Serving mtd opened r.2
  forward : f.pos ≤ r.2.pos
  bytes : r.1 = ((whole mtd opened.header opened.world).drop f.pos).take (r.2.pos-f.pos)
  failures : f.failures ≤ r.2.failures
  full : r.2.failures = 0 → r.2.pos = min (f.pos+left) r.2.len
  silent : 0 < f.failures → r = ([],f)

variable {f opened : Backup World} {mtd : Mtd World}

theorem Serving.index_le (serving : Serving mtd opened f) : f.index ≤ f.len := by
  rcases Nat.eq_zero_or_pos f.failures with none_ | failed
  · have header := serving.header_pos
    have body := serving.body_pos
    rw [serving.index none_,Backup.pos,serving.len,← serving.header]
    omega
  · exact (serving.ended failed).le

theorem whole_length (mtd : Mtd World) (header : List UInt8) (world : World) :
    (whole mtd header world).length = header.length+RECOVERY_RAW_PART_SIZE := by
  simp [whole,load]

theorem copied_none {left : Nat} (serving : Serving mtd opened f)
    (stop : ¬ (0 < left ∧ f.index < f.len)) : Copied mtd opened left f ([],f) := by
  refine ⟨serving,le_rfl,by simp,le_rfl,?_,fun _ => rfl⟩
  intro none_
  have index := serving.index none_
  have low := serving.index_le
  dsimp only at none_ ⊢
  omega

/-- A piece that was copied, and what comes behind it. -/
theorem Copied.behind {opened f f' : Backup World} {left chunk : Nat} {bytes : List UInt8}
    {r : List UInt8 × Backup World} (rest : Copied mtd opened (left-chunk) f' r) (fits : chunk ≤ left)
    (moved : f'.pos = f.pos+chunk) (same : f'.failures = f.failures) (fresh : f.failures = 0)
    (piece : bytes = ((whole mtd opened.header opened.world).drop f.pos).take chunk) :
    Copied mtd opened left f (bytes ++ r.1,r.2) := by
  have forward := rest.forward
  refine ⟨rest.serving,by dsimp only; omega,?_,by rw [← same]; exact rest.failures,?_,fun failed => by omega⟩
  · rw [piece,rest.bytes,moved]
    dsimp only
    have parts : r.2.pos-f.pos = chunk+(r.2.pos-(f.pos+chunk)) := by omega
    rw [parts,take_add,drop_drop]
  · intro none_
    have full := rest.full none_
    dsimp only at none_ ⊢
    omega

theorem backup_loop_copied (fuel : Nat) :
    ∀ left f, left ≤ fuel → Serving mtd opened f → Copied mtd opened left f (backup_loop mtd fuel left f) := by
  induction fuel with
  | zero =>
    intro left f enough serving
    exact copied_none serving (by omega)
  | succ fuel ih =>
    intro left f enough serving
    rw [backup_loop]
    by_cases goes : 0 < left ∧ f.index < f.len
    · rw [if_pos goes]
      have fresh : f.failures = 0 := by
        rcases Nat.eq_zero_or_pos f.failures with none_ | failed
        · exact none_
        · have ended := serving.ended failed
          omega
      have index := serving.index fresh
      have header := serving.header
      by_cases head : f.header_pos < f.header.length
      · rw [if_pos head]
        have start := serving.in_turn head
        dsimp only
        have low : min left (f.header.length-f.header_pos) ≤ f.header.length-f.header_pos := min_le_right _ _
        have fits : min left (f.header.length-f.header_pos) ≤ left := min_le_left _ _
        have some_ : 0 < min left (f.header.length-f.header_pos) := by omega
        generalize min left (f.header.length-f.header_pos) = chunk at low fits some_ ⊢
        have serving' : Serving mtd opened { f with header_pos := f.header_pos+chunk, index := f.index+chunk } := by
          refine ⟨header,serving.len,by dsimp only; omega,serving.body_pos,fun _ => start,?_,?_,serving.stays⟩
          · intro _
            simp only [Backup.pos] at index ⊢
            omega
          · intro failed
            dsimp only at failed
            omega
        refine (ih (left-chunk) _ (by omega) serving').behind fits ?_ rfl fresh ?_
        · simp only [Backup.pos]
          omega
        · -- The piece lies in the header, since none of the partition was sent yet.
          have pos : f.pos = f.header_pos := by rw [Backup.pos,start,add_zero]
          rw [whole,pos,← header,drop_append_of_le_length (by omega),
            take_append_of_le_length (by rw [length_drop]; omega)]
      have sent : f.header_pos = f.header.length := by
        have low := serving.header_pos
        omega
      have len := serving.len
      have more : f.body_pos < RECOVERY_RAW_PART_SIZE := by
        rw [Backup.pos] at index
        rw [← header] at len
        omega
      rw [if_neg head,if_pos more]
      dsimp only
      have low : min left (RECOVERY_RAW_PART_SIZE-f.body_pos) ≤ RECOVERY_RAW_PART_SIZE-f.body_pos := min_le_right _ _
      have fits : min left (RECOVERY_RAW_PART_SIZE-f.body_pos) ≤ left := min_le_left _ _
      have some_ : 0 < min left (RECOVERY_RAW_PART_SIZE-f.body_pos) := by omega
      generalize min left (RECOVERY_RAW_PART_SIZE-f.body_pos) = chunk at low fits some_ ⊢
      have kept := mtd.read_keeps f.world f.body_pos chunk
      have stored := mtd.read_stored f.world f.body_pos chunk
      generalize mtd.read f.world f.body_pos chunk = answer at kept stored ⊢
      by_cases failed : (answer.1 ≠ 0 ∧ answer.1 ≠ -EUCLEAN) ∨ answer.2.1 ≠ chunk
      · rw [if_pos failed]
        refine ⟨⟨header,len,serving.header_pos,serving.body_pos,serving.in_turn,?_,?_,?_⟩,le_rfl,?_,?_,?_,?_⟩
        · intro none_
          dsimp only at none_
          omega
        · intro _
          rfl
        · exact kept.trans serving.stays
        · simp [Backup.pos]
        · exact Nat.le_succ _
        · intro none_
          dsimp only at none_
          omega
        · intro before
          omega
      · rw [if_neg failed]
        simp only [not_or,not_and_or,not_not] at failed
        have bytes := stored failed.1 failed.2
        have serving' : Serving mtd opened
            { f with body_pos := f.body_pos+chunk, index := f.index+chunk, world := answer.2.2.2 } := by
          refine ⟨header,len,serving.header_pos,by dsimp only; omega,?_,?_,?_,kept.trans serving.stays⟩
          · intro head'
            exact absurd head' head
          · intro _
            simp only [Backup.pos] at index ⊢
            omega
          · intro failed
            dsimp only at failed
            omega
        refine (ih (left-chunk) _ (by omega) serving').behind fits ?_ rfl fresh ?_
        · simp only [Backup.pos]
          omega
        · have pos : f.pos = opened.header.length+f.body_pos := by rw [Backup.pos,sent,header]
          have size : RECOVERY_RAW_PART_SIZE = f.body_pos+(RECOVERY_RAW_PART_SIZE-f.body_pos) := by omega
          rw [bytes,whole,pos,drop_append,drop_eq_nil_of_le (by omega),nil_append,
            Nat.add_sub_cancel_left,serving.stays,size,load_drop,load_take _ _ (by omega),Nat.zero_add]
    · rw [if_neg goes]
      exact copied_none serving goes

theorem fs_read_custom_copied {count : Nat} (some_ : 0 < count)
    (serving : Serving mtd opened f) :
    Copied mtd opened count f ((fs_read_custom mtd count f).1.getD [],(fs_read_custom mtd count f).2) ∧
      ((fs_read_custom mtd count f).1 = none → (fs_read_custom mtd count f).1.getD [] = []) := by
  have copied := backup_loop_copied count count f le_rfl serving
  have result : (fs_read_custom mtd count f).1.getD [] = (backup_loop mtd count count f).1 := by
    rw [fs_read_custom,if_neg (by omega)]
    dsimp only
    by_cases empty : (backup_loop mtd count count f).1 = []
    · rw [if_pos empty,empty,getD_none]
    · rw [if_neg empty,getD_some]
  have after : (fs_read_custom mtd count f).2 = (backup_loop mtd count count f).2 := by
    rw [fs_read_custom,if_neg (by omega)]
  rw [result,after]
  refine ⟨copied,?_⟩
  intro eof
  rw [← result,eof,getD_none]

/-- What a sequence of reads does. The end of the file is reported only when
    everything was copied or a read failed. -/
structure Served (mtd : Mtd World) (opened f : Backup World) (r : List (Option (List UInt8)) × Backup World) : Prop where
  serving : Serving mtd opened r.2
  forward : f.pos ≤ r.2.pos
  bytes : delivered r.1 = ((whole mtd opened.header opened.world).drop f.pos).take (r.2.pos-f.pos)
  failures : f.failures ≤ r.2.failures
  ended : none ∈ r.1 → r.2.failures = 0 → r.2.pos = r.2.len
  silent : 0 < f.failures → delivered r.1 = []

theorem fs_reads_served (counts : List Nat) (positive : ∀ count ∈ counts, 0 < count) :
    ∀ f, Serving mtd opened f → Served mtd opened f (fs_reads mtd counts f) := by
  induction counts with
  | nil =>
    intro f serving
    exact ⟨serving,le_rfl,by simp [fs_reads,delivered],le_rfl,by simp [fs_reads],fun _ => rfl⟩
  | cons count counts ih =>
    intro f serving
    obtain ⟨copied,eof⟩ := fs_read_custom_copied (positive count (by simp)) serving
    have served := ih (fun count member => positive count (by simp [member])) _ copied.serving
    rw [fs_reads]
    dsimp only at served ⊢
    generalize fs_read_custom mtd count f = first at copied eof served ⊢
    generalize fs_reads mtd counts first.2 = rest at served ⊢
    have forward := copied.forward
    have later := served.forward
    have first_bytes := copied.bytes
    have split_ : delivered (first.1 :: rest.1) = first.1.getD [] ++ delivered rest.1 := by
      simp [delivered]
    dsimp only at forward first_bytes
    refine ⟨served.serving,by dsimp only; omega,?_,copied.failures.trans served.failures,?_,?_⟩
    · have parts : rest.2.pos-f.pos = (first.2.pos-f.pos)+(rest.2.pos-first.2.pos) := by omega
      have up : f.pos+(first.2.pos-f.pos) = first.2.pos := by omega
      dsimp only
      rw [split_,first_bytes,served.bytes,parts,take_add,drop_drop,up]
    · intro none_ clean
      dsimp only at none_ clean ⊢
      rcases mem_cons.mp none_ with here | there
      · -- This read gave nothing, so that everything had been copied before.
        have earlier := served.failures
        have full := copied.full (by dsimp only; omega)
        have nothing := eof here.symm
        have whole_size := whole_length mtd opened.header opened.world
        have len := served.serving.len
        have len' := copied.serving.len
        have bound := served.serving.index_le
        have index := served.serving.index clean
        have some_ := positive count (by simp)
        have taken : first.2.pos-f.pos = 0 ∨ opened.header.length+RECOVERY_RAW_PART_SIZE ≤ f.pos := by
          have size := congrArg List.length first_bytes
          rw [nothing,length_nil,length_take,length_drop,whole_size] at size
          omega
        dsimp only at full len'
        omega
      · exact served.ended there clean
    · intro failed
      have nothing := congrArg Prod.fst (copied.silent failed)
      have still : 0 < first.2.failures := by
        have more := copied.failures
        dsimp only at more
        omega
      dsimp only at nothing ⊢
      rw [split_,nothing,served.silent still,append_nil]

theorem open_mtd_backup_serving {found : Except Errno (Mtd World)} {filename : String} {memory : Bool} {world : World} (opened : recovery_open_mtd_backup found filename memory world = some (mtd,f)) :
    Serving mtd f f ∧ f.pos = 0 ∧ f.failures = 0 ∧ f.header = backup_header filename ∧ f.world = world := by
  unfold recovery_open_mtd_backup at opened
  cases found with
  | error err => cases opened
  | ok device =>
    dsimp only at opened
    split at opened
    · cases opened
    · split at opened
      · cases opened
      · split at opened
        · cases opened
        · split at opened
          · cases opened
          · obtain ⟨rfl,rfl⟩ := Prod.mk.inj (Option.some.inj opened)
            refine ⟨⟨rfl,rfl,Nat.zero_le _,Nat.zero_le _,fun _ => rfl,fun _ => rfl,?_,rfl⟩,rfl,rfl,rfl,rfl⟩
            intro failed
            dsimp only at failed
            omega

/-- Whatever the sizes of the reads, the client gets a beginning of the header
    and the partition, all of it unless a read of the device failed, and nothing
    after such a failure. -/
theorem backup_faithful (found : Except Errno (Mtd World)) (filename : String) (memory : Bool) (world : World)
    (mtd : Mtd World) (f : Backup World) (opened : recovery_open_mtd_backup found filename memory world = some (mtd,f))
    (counts : List Nat) (positive : ∀ count ∈ counts, 0 < count) :
    delivered (fs_reads mtd counts f).1 <+:
        backup_header filename ++ load (mtd.content world) 0 RECOVERY_RAW_PART_SIZE ∧
      (none ∈ (fs_reads mtd counts f).1 → (fs_reads mtd counts f).2.failures = 0 →
        delivered (fs_reads mtd counts f).1 = backup_header filename ++ load (mtd.content world) 0 RECOVERY_RAW_PART_SIZE) ∧
      (fs_reads mtd counts f).2.index ≤ (fs_reads mtd counts f).2.len ∧
      (0 < (fs_reads mtd counts f).2.failures → ∀ more : List Nat, (∀ count ∈ more, 0 < count) →
        delivered (fs_reads mtd more (fs_reads mtd counts f).2).1 = []) := by
  obtain ⟨start,pos,-,header,same⟩ := open_mtd_backup_serving opened
  have served := fs_reads_served counts positive f start
  have bytes := served.bytes
  have text : whole mtd f.header f.world = backup_header filename ++ load (mtd.content world) 0 RECOVERY_RAW_PART_SIZE := by
    rw [whole,header,same]
  rw [pos,List.drop_zero,Nat.sub_zero,text] at bytes
  refine ⟨?_,?_,served.serving.index_le,?_⟩
  · rw [bytes]
    exact List.take_prefix _ _
  · intro eof clean
    have size := whole_length mtd f.header f.world
    rw [text] at size
    rw [bytes,served.ended eof clean,served.serving.len,List.take_of_length_le (by omega)]
  · intro failed more some_
    exact (fs_reads_served more some_ _ served.serving).silent failed

end

def small_backup : Backup Unit :=
  ⟨backup_header "dsd-2m.bin",0,0,(backup_header "dsd-2m.bin").length+RECOVERY_RAW_PART_SIZE,0,0,()⟩

theorem small_backup_opened :
    recovery_open_mtd_backup (.ok (erased_mtd 0x200000 0x20000)) "dsd-2m.bin" true () =
      some (erased_mtd 0x200000 0x20000,small_backup) := by
  have length : (backup_header "dsd-2m.bin").length = 184 := by decide +kernel
  have size : ¬ (erased_mtd 0x200000 0x20000).size ≠ RECOVERY_RAW_PART_SIZE := by decide
  have room : ¬ (backup_header "dsd-2m.bin").length ≥ backup_header_room := by
    rw [length]
    decide
  have total : ¬ (backup_header "dsd-2m.bin").length+RECOVERY_RAW_PART_SIZE > INT_MAX := by
    rw [length]
    decide
  rw [recovery_open_mtd_backup,if_neg size,if_neg (by decide),if_neg room,if_neg total,small_backup]

theorem backup_faithful_pieces :
    delivered (fs_reads (erased_mtd 0x200000 0x20000) [1,300,1460] small_backup).1 <+:
      backup_header "dsd-2m.bin" ++ load (fun _ => 0xff) 0 RECOVERY_RAW_PART_SIZE :=
  (backup_faithful (.ok (erased_mtd 0x200000 0x20000)) "dsd-2m.bin" true () _ small_backup small_backup_opened
    [1,300,1460] (by decide)).1

end UBoot.Recovery
