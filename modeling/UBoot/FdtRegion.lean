import UBoot.Fdt

/-!
Regions of a flattened device tree, `fdt_find_regions` of `boot/fdt_region.c`: the tags of the nodes
whose paths are listed, and of their subnodes, less some properties. The walk keeps its own path: a
name is added for each node and taken back, up to the last slash, when the node ends.
-/
namespace UBoot.FdtRegion
open UBoot.Fdt List Option

def FDT_MAX_DEPTH : ℕ := 32

structure Region where
  offset : ℕ
  size : ℕ
deriving DecidableEq

/-- What `fdt_find_regions` is called with: the paths to include, the properties to
    exclude, the offset of the structure block and the sizes of the buffers. -/
structure Request where
  inc : List (List Char)
  exc_prop : List (List Char)
  base : ℕ
  max_regions : ℕ
  path_len : ℕ

/-- The variables of the loop. The regions have the last one first; those from
    `max_regions` on are counted and never looked at. -/
structure Walk where
  path : List Char
  want : ℕ
  stack : List ℕ
  expect_end : Bool
  start : Option ℕ
  region : List Region

def push_name (path name : List Char) : List Char := (if path.length ≠ 1 then path ++ ['/'] else path) ++ name

def pop_name (path : List Char) : List Char := ((path.reverse.dropWhile (· ≠ '/')).drop 1).reverse

/-- What the `switch` does with a tag: the new variables, whether to include the tag, and
    whether a region that ends here stops before it. -/
def visit (request : Request) (w : Walk) : Tag → Option (Walk × Bool × Bool)
  | .prop name _ => some (w,2 ≤ w.want ∧ name ∉ request.exc_prop,true)
  | .nop => some (w,2 ≤ w.want,true)
  | .begin_node name =>
    if w.stack.length = FDT_MAX_DEPTH then none
    -- the root node must have an empty name
    else if w.stack = [] ∧ name ≠ [] then none
    else if request.path_len ≤ w.path.length+2+name.length then none
    else
      let path := push_name w.path name
      let want := if path ∈ request.inc then 2 else w.want-1
      some ({ w with path, want, stack := w.want :: w.stack },want ≠ 0,w.want = 1 ∨ path ∉ request.inc ∧ w.want = 0)
  | .end_node =>
    match w.stack with
    | [] => none
    | want :: stack => some ({ w with path := pop_name w.path, want, stack, expect_end := stack = [] },w.want ≠ 0,false)
  | .fdt_end => some (w,true,false)

def begin_region (request : Request) (offset : ℕ) (w : Walk) : Walk :=
  match w.region with
  | last :: region =>
    -- should we merge with previous?
    if w.region.length ≤ request.max_regions ∧ offset = last.offset+last.size-request.base then
      { w with region, start := some (last.offset-request.base) }
    else { w with start := some offset }
  | [] => { w with start := some offset }

def extend (request : Request) (offset stop_at : ℕ) (included : Bool) (w : Walk) : Walk :=
  match included, w.start with
  | true, none => begin_region request offset w
  | false, some start => { w with region := ⟨request.base+start,stop_at-start⟩ :: w.region, start := none }
  | _, _ => w

def step (request : Request) (offset : ℕ) (w : Walk) (tag : Tag) : Option Walk :=
  if w.expect_end ∧ tag ≠ .fdt_end then none
  else
    (visit request w tag).map fun (w,included,before) =>
      extend request offset (if before then offset else offset+tag.size) included w

/-- The loop from an offset on, with the region of the end tag. -/
def find_regions_from (request : Request) : ℕ → Walk → List Tag → Option (List Region)
  | offset, w, tag :: rest =>
    match step request offset w tag with
    | none => none
    | some w =>
      if tag = .fdt_end then
        if rest = [] then some (⟨request.base+w.start.getD 0,offset+tag.size-w.start.getD 0⟩ :: w.region) else none
      else find_regions_from request (offset+tag.size) w rest
  | _, _, [] => none

def first_walk : Walk := ⟨[],0,[],false,none,[]⟩

/-- `fdt_find_regions`; the number of regions is that of the list. -/
def fdt_find_regions (request : Request) (fdt : Blob) : Option (List Region) :=
  (find_regions_from request 0 first_walk fdt).map List.reverse

/-! ## Covered bytes -/

/-- The byte of the structure block lies in one of the regions. -/
def InRegions (base : ℕ) (regions : List Region) (x : ℕ) : Prop :=
  ∃ r ∈ regions, r.offset ≤ base+x ∧ base+x < r.offset+r.size

/-- The byte lies in a region or in the one that is open, up to an offset. -/
def CoveredAt (base : ℕ) (w : Walk) (offset x : ℕ) : Prop :=
  InRegions base w.region x ∨ ∃ start ∈ w.start, start ≤ x ∧ x < offset

variable {request : Request} {w w' : Walk} {offset : ℕ} {tag : Tag}

variable {node place stop_at x : ℕ} {tags : List Tag} {v : Walk}

theorem begin_region_covered (covered : InRegions request.base w.region x) :
    CoveredAt request.base (begin_region request offset w) offset x := by
  unfold begin_region
  cases regions : w.region with
  | nil =>
    rw [regions] at covered
    obtain ⟨r,member,_⟩ := covered
    simp at member
  | cons last region =>
    rw [regions] at covered
    dsimp only
    obtain ⟨r,member,low,high⟩ := covered
    split
    · next merged =>
      rcases mem_cons.mp member with rfl | older
      · refine .inr ⟨_,rfl,?_,?_⟩
        · omega
        · omega
      · exact .inl ⟨r,older,low,high⟩
    · exact .inl ⟨r,member,low,high⟩

theorem begin_region_start (request : Request) (offset : ℕ) (w : Walk) :
    ∃ start, (begin_region request offset w).start = some start ∧ start ≤ offset := by
  unfold begin_region
  split
  · next last region regions =>
    split
    · next merged => exact ⟨_,rfl,by omega⟩
    · exact ⟨offset,rfl,le_rfl⟩
  · exact ⟨offset,rfl,le_rfl⟩

def Begun (w : Walk) (offset : ℕ) : Prop := ∀ start ∈ w.start, start ≤ offset

theorem CoveredAt.later {x next : ℕ} (covered : CoveredAt request.base w offset x) (after : offset ≤ next) : CoveredAt request.base w next x := by
  rcases covered with closed | ⟨start,opened,low,high⟩
  · exact .inl closed
  · exact .inr ⟨start,opened,low,by omega⟩

theorem extend_covered (after : offset ≤ stop_at) (included : Bool) (covered : CoveredAt request.base w offset x) :
    CoveredAt request.base (extend request offset stop_at included w) offset x := by
  unfold extend
  split
  · next closed =>
    rcases covered with inside | ⟨start,opened,_⟩
    · exact begin_region_covered inside
    · rw [closed] at opened
      cases opened
  · next start opened =>
    refine .inl ?_
    rcases covered with ⟨r,member,bounds⟩ | ⟨other,is,low,high⟩
    · exact ⟨r,mem_cons_of_mem _ member,bounds⟩
    · rw [opened] at is
      obtain rfl := Option.some.inj is
      refine ⟨_,mem_cons_self,?_,?_⟩
      · dsimp only
        omega
      · dsimp only
        omega
  · exact covered

theorem extend_begun (begun : Begun w offset) (included : Bool) :
    Begun (extend request offset stop_at included w) offset := by
  intro start opened
  unfold extend at opened
  split at opened
  · obtain ⟨begin,is,before⟩ := begin_region_start request offset w
    rw [is] at opened
    rwa [← Option.some.inj opened]
  · cases opened
  · exact begun start opened

theorem extend_included {stop_at next x : ℕ} (begun : Begun w offset) (low : offset ≤ x) (high : x < next) :
    CoveredAt request.base (extend request offset stop_at true w) next x := by
  unfold extend
  cases opened : w.start with
  | none =>
    obtain ⟨start,is,before⟩ := begin_region_start request offset w
    exact .inr ⟨start,is,by omega,high⟩
  | some start =>
    have before := begun start opened
    exact .inr ⟨start,opened,by omega,high⟩

/-! ## Rounds -/

theorem visit_keeps {included before : Bool} (visited : visit request w tag = some (v,included,before)) :
    v.start = w.start ∧ v.region = w.region := by
  cases tag with
  | prop name value | nop =>
    cases visited
    exact ⟨rfl,rfl⟩
  | begin_node name =>
    rw [visit] at visited
    split at visited
    · cases visited
    · split at visited
      · cases visited
      · split at visited
        · cases visited
        · cases visited
          exact ⟨rfl,rfl⟩
  | end_node =>
    rw [visit] at visited
    split at visited
    · cases visited
    · cases visited
      exact ⟨rfl,rfl⟩
  | fdt_end =>
    cases visited
    exact ⟨rfl,rfl⟩

theorem step_visit (stepped : step request offset w tag = some w') :
    ∃ v included before, visit request w tag = some (v,included,before) ∧
      w' = extend request offset (if before then offset else offset+tag.size) included v := by
  unfold step at stepped
  split at stepped
  · cases stepped
  · obtain ⟨⟨v,included,before⟩,visited,rfl⟩ := map_eq_some_iff.mp stepped
    exact ⟨v,included,before,visited,rfl⟩

theorem step_begun (stepped : step request offset w tag = some w') (begun : Begun w offset) : Begun w' (offset+tag.size) := by
  obtain ⟨v,included,before,visited,rfl⟩ := step_visit stepped
  have kept := visit_keeps visited
  have here : Begun v offset := by rwa [Begun,kept.1]
  intro start opened
  have early := extend_begun here included start opened
  omega

theorem step_covered (stepped : step request offset w tag = some w') (covered : CoveredAt request.base w offset x) :
    CoveredAt request.base w' (offset+tag.size) x := by
  obtain ⟨v,included,before,visited,rfl⟩ := step_visit stepped
  have kept := visit_keeps visited
  have here : CoveredAt request.base v offset x := by rwa [CoveredAt,kept.1,kept.2]
  refine (extend_covered ?_ included here).later (by omega)
  split <;> omega

theorem step_included {before : Bool} (stepped : step request offset w tag = some w') (begun : Begun w offset)
    (visited : visit request w tag = some (v,true,before)) (low : offset ≤ x) (high : x < offset+tag.size) :
    CoveredAt request.base w' (offset+tag.size) x := by
  obtain ⟨u,included,_,revisited,rfl⟩ := step_visit stepped
  obtain ⟨rfl,rfl,rfl⟩ : v = u ∧ true = included ∧ before = _ := by simpa using visited.symm.trans revisited
  have v_begun : Begun v offset := by rwa [Begun,(visit_keeps visited).1]
  exact extend_included v_begun low high

theorem last_covered {next x : ℕ} (covered : CoveredAt request.base w next x) :
    InRegions request.base (⟨request.base+w.start.getD 0,next-w.start.getD 0⟩ :: w.region) x := by
  rcases covered with ⟨r,member,bounds⟩ | ⟨start,opened,low,high⟩
  · exact ⟨r,mem_cons_of_mem _ member,bounds⟩
  · refine ⟨_,mem_cons_self,?_,?_⟩
    · rw [mem_def.mp opened]
      dsimp only [Option.getD]
      omega
    · rw [mem_def.mp opened]
      dsimp only [Option.getD]
      omega

theorem find_regions_from_step {rest : List Tag} {regions : List Region}
    (found : find_regions_from request offset w (tag :: rest) = some regions) :
    ∃ w', step request offset w tag = some w' ∧
      (regions = ⟨request.base+w'.start.getD 0,offset+tag.size-w'.start.getD 0⟩ :: w'.region ∧ rest = [] ∨
        find_regions_from request (offset+tag.size) w' rest = some regions) := by
  rw [find_regions_from] at found
  cases stepped : step request offset w tag with
  | none =>
    rw [stepped] at found
    cases found
  | some w' =>
    rw [stepped] at found
    dsimp only at found
    refine ⟨w',rfl,?_⟩
    split at found
    · split at found
      · next last => exact .inl ⟨(Option.some.inj found).symm,last⟩
      · cases found
    · exact .inr found

theorem find_regions_from_covered {regions : List Region}
    (found : find_regions_from request offset w tags = some regions) (covered : CoveredAt request.base w offset x) :
    InRegions request.base regions x := by
  induction tags generalizing offset w with
  | nil => cases found
  | cons tag rest ih =>
    obtain ⟨w',stepped,last | more⟩ := find_regions_from_step found
    · rw [last.1]
      exact last_covered (step_covered stepped covered)
    · exact ih more (step_covered stepped covered)

def walk (request : Request) : ℕ → Walk → List Tag → Option Walk
  | _, w, [] => some w
  | offset, w, tag :: rest => (step request offset w tag).bind fun w => walk request (offset+tag.size) w rest

def sizes (tags : List Tag) : ℕ := (tags.map Tag.size).sum

theorem find_regions_from_walk {front back : List Tag} {regions : List Region}
    (found : find_regions_from request offset w (front ++ tag :: back) = some regions) (begun : Begun w offset) :
    ∃ w', walk request offset w front = some w' ∧ Begun w' (offset+sizes front) ∧
      find_regions_from request (offset+sizes front) w' (tag :: back) = some regions := by
  induction front generalizing offset w with
  | nil => exact ⟨w,rfl,begun,found⟩
  | cons first front ih =>
    obtain ⟨next,stepped,last | more⟩ := find_regions_from_step found
    · simp at last
    · obtain ⟨w',walked,begun,rest⟩ := ih more (step_begun stepped begun)
      rw [add_assoc] at begun rest
      refine ⟨w',?_,begun,rest⟩
      rw [walk,stepped]
      exact walked

theorem extend_keeps (request : Request) (offset stop_at : ℕ) (included : Bool) (w : Walk) :
    (extend request offset stop_at included w).path = w.path ∧ (extend request offset stop_at included w).want = w.want ∧
      (extend request offset stop_at included w).stack = w.stack := by
  unfold extend
  split
  · unfold begin_region
    split
    · split <;> exact ⟨rfl,rfl,rfl⟩
    · exact ⟨rfl,rfl,rfl⟩
  · exact ⟨rfl,rfl,rfl⟩
  · exact ⟨rfl,rfl,rfl⟩

section
variable {name : List Char}

theorem visit_begin {included before : Bool} (visited : visit request w (.begin_node name) = some (v,included,before)) :
    v.path = push_name w.path name ∧ v.want = (if push_name w.path name ∈ request.inc then 2 else w.want-1) ∧
      v.stack = w.want :: w.stack ∧ included = decide (v.want ≠ 0) := by
  rw [visit] at visited
  split at visited
  · cases visited
  · split at visited
    · cases visited
    · split at visited
      · cases visited
      · cases visited
        exact ⟨rfl,rfl,rfl,rfl⟩

theorem step_begin (stepped : step request offset w (.begin_node name) = some w') :
    w'.path = push_name w.path name ∧ w'.want = (if push_name w.path name ∈ request.inc then 2 else w.want-1) ∧
      w'.stack = w.want :: w.stack := by
  obtain ⟨v,included,before,visited,rfl⟩ := step_visit stepped
  obtain ⟨path,want,stack⟩ := extend_keeps request offset (if before then offset else offset+(Tag.begin_node name).size) included v
  obtain ⟨v_path,v_want,v_stack,_⟩ := visit_begin visited
  exact ⟨path.trans v_path,want.trans v_want,stack.trans v_stack⟩

theorem step_end (stepped : step request offset w .end_node = some w') :
    w'.path = pop_name w.path ∧ w.stack = w'.want :: w'.stack := by
  obtain ⟨v,included,before,visited,rfl⟩ := step_visit stepped
  obtain ⟨path,want,stack⟩ := extend_keeps request offset (if before then offset else offset+Tag.end_node.size) included v
  rw [path,want,stack]
  rw [visit] at visited
  split at visited
  · cases visited
  · next saved =>
    cases visited
    exact ⟨rfl,saved⟩

theorem step_inside (begins : ∀ name, tag ≠ .begin_node name) (ends : tag ≠ .end_node) (stepped : step request offset w tag = some w') :
    w'.path = w.path ∧ w'.want = w.want ∧ w'.stack = w.stack := by
  obtain ⟨v,included,before,visited,rfl⟩ := step_visit stepped
  have same : v = w := by
    cases tag with
    | begin_node name => exact absurd rfl (begins name)
    | end_node => exact absurd rfl ends
    | prop name value | nop | fdt_end => cases visited; rfl
  rw [same]
  exact extend_keeps request offset _ included w
end

/-! ## A listed node -/

/-- The properties of a node from a place on, also behind its subnodes. -/
def own_props_from : ℕ → ℕ → List Tag → List (ℕ × List Char)
  | place, 0, .prop name _ :: rest => (place,name) :: own_props_from (place+1) 0 rest
  | place, depth+1, .prop _ _ :: rest => own_props_from (place+1) (depth+1) rest
  | place, depth, .nop :: rest => own_props_from (place+1) depth rest
  | place, depth, .begin_node _ :: rest => own_props_from (place+1) (depth+1) rest
  | place, depth+1, .end_node :: rest => own_props_from (place+1) depth rest
  | _, _, _ => []

def own_props (fdt : Blob) (node : ℕ) : List (ℕ × List Char) := own_props_from (node+1) 0 (fdt.drop (node+1))

theorem own_props_at {place depth : ℕ} {name : List Char}
    (member : (node,name) ∈ own_props_from place depth tags) : ∃ k value, node = place+k ∧ tags[k]? = some (.prop name value) := by
  induction tags generalizing place depth with
  | nil =>
    rw [own_props_from.eq_def] at member
    simp at member
  | cons tag tags ih =>
    have later {depth' : ℕ} (found : (node,name) ∈ own_props_from (place+1) depth' tags) :
        ∃ k value, node = place+k ∧ (tag :: tags)[k]? = some (.prop name value) := by
      obtain ⟨k,value,is,at_k⟩ := ih found
      exact ⟨k+1,value,by omega,at_k⟩
    cases tag with
    | begin_node first =>
      rw [own_props_from] at member
      exact later member
    | end_node =>
      cases depth with
      | zero =>
        rw [own_props_from.eq_def] at member
        simp at member
      | succ depth =>
        rw [own_props_from] at member
        exact later member
    | prop property value =>
      cases depth with
      | zero =>
        rw [own_props_from,mem_cons] at member
        rcases member with here | found
        · obtain ⟨rfl,rfl⟩ := Prod.mk.inj here
          exact ⟨0,value,rfl,rfl⟩
        · exact later found
      | succ depth =>
        rw [own_props_from] at member
        exact later member
    | nop =>
      rw [own_props_from] at member
      exact later member
    | fdt_end =>
      rw [own_props_from.eq_def] at member
      simp at member

/-- The value of `want` at the properties of a node is the one from its beginning. -/
theorem own_props_want {inner wants : List ℕ} {place k : ℕ} {tags : List Tag} {name : List Char}
    (saved : w.want :: w.stack = inner ++ wants) (member : (place+k,name) ∈ own_props_from place inner.length tags)
    (walked : walk request offset w (tags.take k) = some w') : w'.want :: w'.stack = wants := by
  induction tags generalizing place inner offset w k with
  | nil =>
    rw [own_props_from.eq_def] at member
    simp at member
  | cons tag tags ih =>
    have later {inner' : List ℕ} (found : (place+k,name) ∈ own_props_from (place+1) inner'.length tags)
        (next : ∀ v, step request offset w tag = some v → v.want :: v.stack = inner' ++ wants) : w'.want :: w'.stack = wants := by
      obtain ⟨j,_,is,_⟩ := own_props_at found
      obtain rfl : k = j+1 := by omega
      rw [take_succ_cons,walk] at walked
      obtain ⟨v,stepped,rest⟩ := bind_eq_some_iff.mp walked
      rw [is] at found
      exact ih (next v stepped) found rest
    cases tag with
    | begin_node first =>
      rw [own_props_from] at member
      refine @later ((if push_name w.path first ∈ request.inc then 2 else w.want-1) :: inner) member ?_
      intro v stepped
      obtain ⟨_,want,stack⟩ := step_begin stepped
      rw [want,stack,saved]
      rfl
    | end_node =>
      cases inner with
      | nil =>
        rw [length_nil,own_props_from.eq_def] at member
        simp at member
      | cons outer inner =>
        rw [length_cons,own_props_from] at member
        refine later member ?_
        intro v stepped
        rw [← (step_end stepped).2]
        exact (List.cons.inj saved).2
    | prop property value =>
      have same : ∀ v, step request offset w (.prop property value) = some v → v.want :: v.stack = inner ++ wants := by
        intro v stepped
        obtain ⟨_,want,stack⟩ := step_inside (by simp) (by simp) stepped
        rw [want,stack,saved]
      cases inner with
      | nil =>
        rw [length_nil,own_props_from,mem_cons] at member
        rcases member with here | found
        · have first := (Prod.mk.inj here).1
          obtain rfl : k = 0 := by omega
          obtain rfl := Option.some.inj walked
          exact saved
        · exact @later [] found same
      | cons outer inner =>
        rw [length_cons,own_props_from] at member
        exact @later (outer :: inner) member same
    | nop =>
      rw [own_props_from] at member
      refine later member ?_
      intro v stepped
      obtain ⟨_,want,stack⟩ := step_inside (by simp) (by simp) stepped
      rw [want,stack,saved]
    | fdt_end =>
      rw [own_props_from.eq_def] at member
      simp at member

theorem walk_append (front back : List Tag) :
    walk request offset w (front ++ back) = (walk request offset w front).bind fun w => walk request (offset+sizes front) w back := by
  induction front generalizing offset w with
  | nil => rfl
  | cons tag front ih =>
    rw [cons_append,walk,walk]
    cases step request offset w tag with
    | none => rfl
    | some v =>
      simp only [bind_some]
      rw [ih,add_assoc]
      rfl

def TagCovered (base : ℕ) (fdt : Blob) (regions : List Region) (place : ℕ) : Prop :=
  ∀ x, offset_of fdt place ≤ x → x < offset_of fdt (place+1) → InRegions base regions x

variable {fdt : Blob} {regions : List Region}

theorem offset_next (at_place : fdt[place]? = some tag) : offset_of fdt (place+1) = offset_of fdt place+tag.size := by
  rw [offset_of,take_node at_place,map_append,sum_append]
  simp [offset_of]

theorem included_covered (found : fdt_find_regions request fdt = some regions) (at_place : fdt[place]? = some tag) :
    ∃ w, walk request 0 first_walk (fdt.take place) = some w ∧ (∃ w', step request (offset_of fdt place) w tag = some w') ∧
      ((∃ v before, visit request w tag = some (v,true,before)) → TagCovered request.base fdt regions place) := by
  obtain ⟨reversed,run,rfl⟩ := map_eq_some_iff.mp found
  obtain ⟨inside,is_tag⟩ := List.getElem?_eq_some_iff.mp at_place
  have parts : fdt = fdt.take place ++ tag :: fdt.drop (place+1) := by
    rw [← is_tag,← drop_eq_getElem_cons inside,take_append_drop]
  rw [parts] at run
  have unbegun : Begun first_walk 0 := by
    intro start opened
    cases opened
  obtain ⟨w,walked,begun,rest⟩ := find_regions_from_walk run unbegun
  rw [zero_add] at begun rest
  obtain ⟨w',stepped,ends⟩ := find_regions_from_step rest
  refine ⟨w,walked,⟨w',stepped⟩,?_⟩
  rintro ⟨v,before,visited⟩ x low high
  rw [offset_next at_place] at high
  have covered := step_included stepped begun visited low high
  have in_regions : InRegions request.base reversed x := by
    rcases ends with last | more
    · rw [last.1]
      exact last_covered covered
    · exact find_regions_from_covered more covered
  obtain ⟨r,member,bounds⟩ := in_regions
  exact ⟨r,mem_reverse.mpr member,bounds⟩

/-- The tag of a node and its properties, other than those to exclude, are in the regions. -/
def NodeCovered (base : ℕ) (exc_prop : List (List Char)) (fdt : Blob) (regions : List Region) (node : ℕ) : Prop :=
  TagCovered base fdt regions node ∧
    ∀ place name, (place,name) ∈ own_props fdt node → name ∉ exc_prop → TagCovered base fdt regions place

theorem node_covered (found : fdt_find_regions request fdt = some regions) {name : List Char}
    (named : fdt_get_name fdt node = some name)
    (listed : ∀ w, walk request 0 first_walk (fdt.take node) = some w → push_name w.path name ∈ request.inc) :
    NodeCovered request.base request.exc_prop fdt regions node := by
  have at_node := fdt_get_name_eq named
  obtain ⟨w,walked,⟨w',stepped⟩,covered⟩ := included_covered found at_node
  have wanted : w'.want = 2 := by
    rw [(step_begin stepped).2.1,if_pos (listed w walked)]
  constructor
  · apply covered
    obtain ⟨v,included,before,visited,rfl⟩ := step_visit stepped
    have included_is := (visit_begin visited).2.2.2
    rw [(visit_begin visited).2.1,if_pos (listed w walked)] at included_is
    obtain rfl : included = true := included_is
    exact ⟨v,before,visited⟩
  · intro place property member kept
    obtain ⟨k,value,rfl,at_k⟩ := own_props_at member
    rw [getElem?_drop] at at_k
    obtain ⟨u,u_walked,_,u_covered⟩ := included_covered found at_k
    have inside : walk request (offset_of fdt (node+1)) w' ((fdt.drop (node+1)).take k) = some u := by
      rw [take_add,take_node at_node,append_assoc,walk_append,walked,bind_some,singleton_append,walk,
        zero_add] at u_walked
      change ((step request (offset_of fdt node) w (.begin_node name)).bind _) = some u at u_walked
      rw [stepped,bind_some] at u_walked
      rw [offset_next at_node]
      exact u_walked
    have want_is := @own_props_want request w' u _ [] (w'.want :: w'.stack) _ _ _ _ rfl member inside
    apply u_covered
    refine ⟨u,true,?_⟩
    rw [visit,(List.cons.inj want_is).1,wanted]
    simp [kept]

/-! ## The path of the walk -/

def rendered : List (List Char) → List Char
  | [] => []
  | name :: names => push_name (rendered names) name

/-- Paths that go on in the same way: before the first name there may be a slash. -/
def Same (path other : List Char) : Prop :=
  path = other ∨ (path = [] ∨ path = ['/']) ∧ (other = [] ∨ other = ['/'])

def Rooted (path : List Char) : Prop := path = [] ∨ ∃ rest, path = '/' :: rest

theorem push_name_rooted {path : List Char} (rooted : Rooted path) (name : List Char) : ∃ rest, push_name path name = '/' :: rest := by
  unfold push_name
  rcases rooted with rfl | ⟨rest,rfl⟩
  · exact ⟨name,rfl⟩
  · split
    · exact ⟨rest ++ ['/'] ++ name,rfl⟩
    · exact ⟨rest ++ name,rfl⟩

theorem rendered_rooted (names : List (List Char)) : Rooted (rendered names) := by
  induction names with
  | nil => exact .inl rfl
  | cons name names ih => exact .inr (push_name_rooted ih name)

theorem push_name_same {path other : List Char} (same : Same path other) (name : List Char) :
    push_name path name = push_name other name := by
  rcases same with rfl | ⟨rfl | rfl,rfl | rfl⟩ <;> rfl

theorem pop_name_append {name : List Char} (slashless : '/' ∉ name) (path : List Char) : pop_name (path ++ '/' :: name) = path := by
  rw [pop_name,reverse_append,reverse_cons,append_assoc,dropWhile_slashless slashless,
    singleton_append,dropWhile_cons_of_neg (by simp),drop_one,tail_cons,reverse_reverse]

theorem pop_push_name {path name : List Char} (rooted : Rooted path) (slashless : '/' ∉ name) :
    Same (pop_name (push_name path name)) path := by
  unfold push_name
  split
  · rw [append_assoc,singleton_append,pop_name_append slashless]
    exact .inl rfl
  next single =>
  rcases rooted with rfl | ⟨rest,rfl⟩
  · simp at single
  · obtain rfl : rest = [] := by simpa using single
    have popped := pop_name_append slashless []
    rw [nil_append] at popped
    rw [singleton_append,popped]
    exact .inr ⟨.inl rfl,.inr rfl⟩

theorem pop_name_same {path name : List Char} {names : List (List Char)} (same : Same path (rendered (name :: names)))
    (slashless : '/' ∉ name) : Same (pop_name path) (rendered names) := by
  have rooted := rendered_rooted names
  rcases same with rfl | ⟨bare,short⟩
  · exact pop_push_name rooted slashless
  refine .inr ⟨?_,?_⟩
  · rcases bare with rfl | rfl
    · exact .inl rfl
    · exact .inl rfl
  · rw [rendered] at short
    rcases rooted with empty | ⟨rest,is⟩
    · exact .inl empty
    · refine .inr ?_
      rw [is] at short ⊢
      unfold push_name at short
      split at short
      · simp at short
      · next single =>
        simpa using single

theorem walk_path {names : List (List Char)} (walked : walk request offset w tags = some w')
    (same : Same w.path (rendered names)) (depth : w.stack.length = names.length)
    (slashless : ∀ name ∈ closed_names names tags, '/' ∉ name) : Same w'.path (rendered (open_names names tags)) := by
  induction tags generalizing names offset w with
  | nil =>
    rw [← Option.some.inj walked]
    exact same
  | cons tag tags ih =>
    rw [walk] at walked
    obtain ⟨v,stepped,rest⟩ := bind_eq_some_iff.mp walked
    cases tag with
    | begin_node name =>
      obtain ⟨path,_,stack⟩ := step_begin stepped
      refine @ih v _ (name :: names) rest ?_ ?_ slashless
      · rw [path,push_name_same same]
        exact .inl rfl
      · rw [stack,length_cons,length_cons,depth]
    | end_node =>
      obtain ⟨path,stack⟩ := step_end stepped
      cases names with
      | nil =>
        rw [stack] at depth
        simp at depth
      | cons name names =>
        refine ih rest ?_ ?_ ?_
        · rw [path]
          exact pop_name_same same (slashless name mem_cons_self)
        · rw [stack] at depth
          simpa using depth
        · intro other member
          exact slashless other (mem_cons_of_mem name member)
    | _ =>
      obtain ⟨path,_,stack⟩ := step_inside (by simp) (by simp) stepped
      rw [← path] at same
      rw [← stack] at depth
      exact ih rest same depth slashless

/-- A node is covered if the path of the open nodes is listed. -/
theorem node_path_covered (found : fdt_find_regions request fdt = some regions) {name : List Char}
    (named : fdt_get_name fdt node = some name) (slashless : ClosedSlashless fdt node)
    (listed : rendered (names_at fdt node) ∈ request.inc) : NodeCovered request.base request.exc_prop fdt regions node := by
  refine node_covered found named ?_
  intro w walked
  have same := walk_path walked (.inl rfl) rfl slashless
  have path : push_name w.path name = rendered (names_at fdt node) := by
    rw [push_name_same same,names_at,take_node (fdt_get_name_eq named),open_names_append]
    rfl
  rwa [path]

/-- The path of the open nodes is that of `fdt_get_path`, below a node that has a name. -/
theorem rendered_text {top : List Char} (nonempty : top ≠ []) (inner : List (List Char)) :
    rendered (inner ++ [top,[]]) = path_text (joined (inner ++ [top,[]])) := by
  have long : ∀ inner : List (List Char), 1 < (rendered (inner ++ [top,[]])).length ∧
      joined (inner ++ [top,[]]) = rendered (inner ++ [top,[]]) ++ ['/'] := by
    intro inner
    induction inner with
    | nil =>
      have some_letter := length_pos_iff.mpr nonempty
      refine ⟨?_,rfl⟩
      simp only [nil_append,rendered,push_name,length_nil,length_append]
      simp
      omega
    | cons name inner ih =>
      rw [cons_append,rendered,joined,ih.2,push_name,if_pos (by omega)]
      refine ⟨?_,rfl⟩
      simp only [length_append,length_cons]
      omega
  obtain ⟨short,is⟩ := long inner
  rw [path_text,is,if_pos (by rw [length_append]; omega),dropLast_concat]
end UBoot.FdtRegion
