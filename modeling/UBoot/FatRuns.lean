import UBoot.FatFileWrite
import UBoot.Runs

/-!
Runs of writes and removals on a FAT volume: `file_fat_write_at` and `fat_unlink` of
`fs/fat/fat_write.c` from the directory entry on. As long as the writes succeed and the volume has
room for them, it is read like one list of bytes for each name.
-/
namespace UBoot.FatFile
open UBoot.Fat UBoot.Runs List Option Function

def ENOENT : ℤ := 2
def EIO : ℤ := 5
def EINVAL : ℤ := 22

structure Entry where
  start : ℕ
  size : ℕ

/-- The volume with the directory entries of the names. -/
structure Volume (ι : Type) where
  disk : Disk
  entries : ι → Option Entry

section
variable {ι : Type} (g : Fsdata)

def fat_read_file (v : Volume ι) (i : ι) (offset len : ℕ) : Option (Option (List UInt8)) :=
  match v.entries i with
  | none => some none
  | some dent => get_contents g v.disk dent.start dent.size offset len

/-- The entry and the position that `set_contents` is given; `pos` is `none` for -1. A file that
    is not there gets an entry. -/
def write_place (entry : Option Entry) (pos : Option ℕ) : Option (Entry × ℕ) :=
  match entry with
  | some dent => if pos.getD dent.size > dent.size then none else some (dent,pos.getD dent.size)
  | none => if pos = some 0 then some (⟨0,0⟩,0) else none

/-- The chain that starts at a cluster. -/
def chain_from (fatsize : FatSize) (fat : Table) : ℕ → ℕ → List ℕ
  | 0, _ => []
  | rounds+1, clust => if CHECK_CLUST clust fatsize then [] else clust :: chain_from fatsize fat rounds (fat clust)

/-- The chain holds the bytes. -/
structure Kept (d : Disk) (chain : List ℕ) (bytes : List UInt8) : Prop where
  linked : Linked g.fatsize d.fat chain
  inside : ∀ c ∈ chain, Inside g c
  once : chain.Nodup
  filled : bytes.length ≤ chain.length*bytesperclust g
  holds : (contents g d chain).take bytes.length = bytes
  small : bytes.length < 2^31

/-- The chains of the volume hold the files, and a name without an entry has no clusters. -/
structure Shows (v : Volume ι) (chain : ι → List ℕ) (files : ι → Option (List UInt8)) : Prop where
  entries : ∀ i, v.entries i = (files i).map fun bytes => ⟨(chain i).headD 0,bytes.length⟩
  absent : ∀ i, files i = none → chain i = []
  kept : ∀ i, Kept g v.disk (chain i) ((files i).getD [])
  apart : ∀ i j, i ≠ j → (chain i).Disjoint (chain j)

variable {g} {v : Volume ι} {chain : ι → List ℕ} {files : ι → Option (List UInt8)}

theorem chain_from_linked {fatsize : FatSize} {fat : Table} {chain : List ℕ} (linked : Linked fatsize fat chain)
    (numbers : ∀ c ∈ chain, Number fatsize c) {rounds clust : ℕ} (enough : chain.length ≤ rounds)
    (start : chain.head? = some clust ∨ chain = [] ∧ CHECK_CLUST clust fatsize) : chain_from fatsize fat rounds clust = chain := by
  induction chain generalizing rounds clust with
  | nil =>
    have ends : CHECK_CLUST clust fatsize := by simpa using start
    cases rounds with
    | zero => rfl
    | succ rounds => rw [chain_from,if_pos ends]
  | cons c chain ih =>
    obtain rfl : c = clust := by simpa using start
    obtain ⟨rounds,rfl⟩ : ∃ more, rounds = more+1 := ⟨rounds-1,by simp at enough; omega⟩
    rw [chain_from,if_neg (numbers c mem_cons_self).valid]
    congr 1
    refine ih (linked_tail linked) (fun x member => numbers x (mem_cons_of_mem _ member)) (by simpa using enough) ?_
    cases chain with
    | nil =>
      have last : IS_LAST_CLUST (fat c) fatsize := linked
      have below := @bad_lt_last fatsize
      refine .inr ⟨rfl,.inr ?_⟩
      unfold IS_LAST_CLUST at last
      omega
    | cons x rest => exact .inl (congrArg some linked.1.symm)

theorem Kept.start_chain {d : Disk} {chain : List ℕ} {bytes : List UInt8} (kept : Kept g d chain bytes) :
    chain_from g.fatsize d.fat g.fatsize.bad (chain.headD 0) = chain := by
  have numbers : ∀ c ∈ chain, Number g.fatsize c := fun c member => (kept.inside c member).number
  exact chain_from_linked kept.linked numbers (chain_short kept.once numbers) (chain_start _ _)

theorem Kept.other {d d' : Disk} {chain own own' : List ℕ} {bytes new : List UInt8} (kept : Kept g d chain bytes)
    (rewritten : Rewritten g d d' own own' new) (apart : chain.Disjoint own) (inside : ∀ c ∈ own, Inside g c) :
    Kept g d' chain bytes ∧ chain.Disjoint own' := by
  obtain ⟨linked,same⟩ := rewritten.other kept.linked kept.inside apart inside
  refine ⟨⟨linked,kept.inside,kept.once,kept.filled,by rw [same,kept.holds],kept.small⟩,?_⟩
  intro c member added
  rcases rewritten.fresh c added with old | free
  · exact apart member old
  · exact linked_used kept.linked (fun x member => (kept.inside x member).number) c member free

/-- A file is read as the list of bytes it is. -/
theorem Shows.read (shows : Shows g v chain files) (i : ι) (offset len : ℕ) :
    fat_read_file g v i offset len = some ((files i).map fun bytes => slice bytes offset len) := by
  have kept := shows.kept i
  have read := get_contents_chain kept.linked kept.inside kept.filled kept.small offset len
  rw [kept.holds] at read
  rw [fat_read_file,shows.entries i]
  cases there : files i with
  | none => rfl
  | some bytes =>
    rw [there] at read
    exact read

variable [DecidableEq ι] (g)

def file_fat_write_at (v : Volume ι) (i : ι) (pos : Option ℕ) (buffer : List UInt8) : Option (ℤ × Volume ι) :=
  match write_place (v.entries i) pos with
  | none => some (- EINVAL,v)
  | some (dent,pos) =>
    (set_contents g v.disk dent.start pos buffer).map fun w =>
      if w.ret < 0 then (- EIO,{ v with disk := w.disk })
      else (0,⟨w.disk,Function.update v.entries i (some ⟨w.start,(pos+buffer.length)%2^32⟩)⟩)

def fat_unlink (v : Volume ι) (i : ι) : ℤ × Volume ι :=
  match v.entries i with
  | none => (- ENOENT,v)
  | some dent => (0,⟨v.disk.link (clear_fatent g.fatsize v.disk.fat dent.start),Function.update v.entries i none⟩)

inductive Event (ι : Type) where
  | write (i : ι) (pos : Option ℕ) (buffer : List UInt8)
  | unlink (i : ι)

def step (v : Volume ι) : Event ι → Volume ι
  | .write i pos buffer => ((file_fat_write_at g v i pos buffer).map Prod.snd).getD v
  | .unlink i => (fat_unlink g v i).2

/-- A write that gets to the contents of the file has room for them and succeeds. -/
def Fits (v : Volume ι) : Event ι → Prop
  | .write i pos buffer => ∀ place ∈ write_place (v.entries i) pos, place.2+buffer.length < 2^31 ∧
      Enough g v.disk.fat (chain_from g.fatsize v.disk.fat g.fatsize.bad place.1.start) (place.2+buffer.length) ∧
      (set_contents g v.disk place.1.start place.2 buffer).map Written.ret = some 0
  | .unlink _ => True

instance (v : Volume ι) : ∀ e, Decidable (Fits g v e)
  | .write _ _ _ => inferInstanceAs (Decidable (∀ place ∈ write_place _ _, _))
  | .unlink _ => .isTrue trivial

/-- What the calls mean: the files are lists of bytes. A hole is refused. -/
def contents_step (files : ι → Option (List UInt8)) : Event ι → ι → Option (List UInt8)
  | .write i pos buffer =>
    match files i with
    | some bytes =>
      if pos.getD bytes.length > bytes.length then files
      else Function.update files i (some (bytes.take (pos.getD bytes.length) ++ buffer))
    | none => if pos = some 0 then Function.update files i (some buffer) else files
  | .unlink i => Function.update files i none

variable {g}

/-- One file is rewritten, and the others stay. -/
theorem Shows.rewrite (shows : Shows g v chain files) {i : ι} {d' : Disk} {chain' : List ℕ} {file : Option (List UInt8)}
    (rewritten : Rewritten g v.disk d' (chain i) chain' (file.getD [])) (absent : file = none → chain' = [])
    (small : (file.getD []).length < 2^31) :
    Shows g ⟨d',Function.update v.entries i (file.map fun bytes => ⟨chain'.headD 0,bytes.length⟩)⟩
      (Function.update chain i chain') (Function.update files i file) := by
  have other {j : ι} (differs : j ≠ i) := (shows.kept j).other rewritten (shows.apart j i differs) (shows.kept i).inside
  refine ⟨fun j => ?_,fun j => ?_,fun j => ?_,fun j k differ => ?_⟩
  all_goals obtain rfl | differs := eq_or_ne j i
  all_goals first | simp only [update_of_ne differs] | simp only [update_self]
  · exact shows.entries j
  · exact absent
  · exact shows.absent j
  · exact ⟨rewritten.linked,rewritten.inside,rewritten.once,rewritten.filled,rewritten.holds,small⟩
  · exact (other differs).1
  · rw [update_of_ne differ.symm]
    exact (other differ.symm).2.symm
  · obtain rfl | differs' := eq_or_ne k i
    · rw [update_self]
      exact (other differs).2
    · rw [update_of_ne differs']
      exact shows.apart j k differ

theorem Shows.write (shows : Shows g v chain files) {i : ι} {pos : ℕ} {buffer : List UInt8}
    (within : pos ≤ ((files i).getD []).length) (small : pos+buffer.length < 2^31)
    (enough : Enough g v.disk.fat (chain_from g.fatsize v.disk.fat g.fatsize.bad ((chain i).headD 0)) (pos+buffer.length))
    (returned : (set_contents g v.disk ((chain i).headD 0) pos buffer).map Written.ret = some 0) :
    ∃ w chain', set_contents g v.disk ((chain i).headD 0) pos buffer = some w ∧ w.ret = 0 ∧
      Shows g ⟨w.disk,Function.update v.entries i (some ⟨w.start,pos+buffer.length⟩)⟩ chain'
        (Function.update files i (some (((files i).getD []).take pos ++ buffer))) := by
  have kept := shows.kept i
  rw [kept.start_chain] at enough
  obtain ⟨w,written,spec⟩ := set_contents_chain kept.linked kept.inside kept.once (le_trans within kept.filled)
    (show pos+buffer.length < 2^32 by omega) enough
  rw [written,map_some,some_inj] at returned
  obtain ⟨chain',start,_,rewritten⟩ := spec returned
  have front : (contents g v.disk (chain i)).take pos = ((files i).getD []).take pos := by
    rw [← kept.holds,take_take,min_eq_left within]
  have length : (((files i).getD []).take pos ++ buffer).length = pos+buffer.length := by
    rw [length_append,length_take,min_eq_left within]
  rw [front] at rewritten
  have next := shows.rewrite (show Rewritten g v.disk w.disk (chain i) chain' ((some (((files i).getD []).take pos ++ buffer)).getD [])
    from rewritten) (by simp) (by rw [getD_some,length]; exact small)
  rw [map_some,length,← start] at next
  exact ⟨w,_,written,returned,next⟩

/-- What a write is about, and what it means. -/
theorem Shows.place (shows : Shows g v chain files) (i : ι) (pos : Option ℕ) (buffer : List UInt8) :
    match write_place (v.entries i) pos with
    | none => contents_step files (.write i pos buffer) = files
    | some (dent,place) => dent.start = (chain i).headD 0 ∧ place ≤ ((files i).getD []).length ∧
        contents_step files (.write i pos buffer) =
          Function.update files i (some (((files i).getD []).take place ++ buffer)) := by
  rw [shows.entries i]
  cases there : files i with
  | none =>
    by_cases first : pos = some 0
    · simp [write_place,contents_step,there,first,shows.absent i there]
    · simp [write_place,contents_step,there,first]
  | some bytes =>
    by_cases hole : pos.getD bytes.length > bytes.length
    · simp [write_place,contents_step,there,hole]
    · simp [write_place,contents_step,there,hole,not_lt.mp hole]

/-- A step on the volume is a step on the files. -/
theorem shows_step (shows : Shows g v chain files) (e : Event ι) (fits : Fits g v e) :
    ∃ chain', Shows g (step g v e) chain' (contents_step files e) := by
  cases e with
  | write i pos buffer =>
    have means := shows.place i pos buffer
    rw [step,file_fat_write_at]
    cases place : write_place (v.entries i) pos with
    | none =>
      rw [place] at means
      rw [means]
      exact ⟨chain,shows⟩
    | some found =>
      obtain ⟨dent,off⟩ := found
      rw [place] at means
      obtain ⟨start,within,means⟩ := means
      obtain ⟨small,enough,returned⟩ := fits _ place
      dsimp only at small enough returned ⊢
      rw [start] at enough returned ⊢
      obtain ⟨w,chain',written,zero,next⟩ := shows.write within small enough returned
      refine ⟨chain',?_⟩
      rw [written,means,map_some,map_some,getD_some,if_neg (by omega),Nat.mod_eq_of_lt (by omega)]
      exact next
  | unlink i =>
    have entry := shows.entries i
    rw [step,fat_unlink,contents_step]
    cases there : files i with
    | none =>
      rw [there,map_none] at entry
      rw [entry,← there,update_eq_self]
      exact ⟨chain,shows⟩
    | some bytes =>
      rw [there,map_some] at entry
      have released := release_chain (shows.kept i).linked (shows.kept i).inside (shows.kept i).once
      have next := shows.rewrite (show Rewritten g v.disk _ (chain i) [] ((none : Option (List UInt8)).getD []) from released)
        (fun _ => rfl) (by simp)
      rw [entry]
      exact ⟨_,next⟩

end

def empty_volume : Volume Bool := ⟨⟨fun _ => 0,fun _ => 0⟩,fun _ => none⟩

/-- A file of two clusters, one that is appended to, a hole, and a removal whose clusters are used again. -/
def sample_calls : List (Event Bool) :=
  [.write false (some 0) (List.replicate 600 7),.write true (some 0) [1,2],.write true none [3],.write true (some 9) [4],
    .unlink false,.write true (some 1) (List.replicate 600 5)]

end UBoot.FatFile
