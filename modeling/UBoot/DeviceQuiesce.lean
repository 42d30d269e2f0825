import UBoot.DeviceProbe

/-!
Stopping the devices that have to be quiet before an operating system starts,
`dm_remove_devices_active` of `drivers/core/root.c`, in two passes with hooks that succeed. A call
of `device_remove` asks for active flags or not, and keeps vital devices or not.
-/
namespace UBoot.DeviceQuiesce
open UBoot.DeviceProbe List

section
variable (env : Env) (tree : Tree) (active keep : Bool) (s : State)

/-- The states after the first pass and after both. -/
def dm_remove_devices_active (depth root : ℕ) : State × State :=
  -- Remove non-vital devices first
  let first := (device_remove env tree depth root (DM_REMOVE_ACTIVE_ALL ||| DM_REMOVE_NON_VITAL) s).1
  (first,(device_remove env tree depth root DM_REMOVE_ACTIVE_ALL first).1)

def flags : ℕ := (if active then DM_REMOVE_ACTIVE_ALL else 0) ||| (if keep then DM_REMOVE_NON_VITAL else 0)

def Flagged (dev : ℕ) : Prop := tree.drv_flags dev &&& DM_REMOVE_ACTIVE_ALL ≠ 0

def Vital (dev : ℕ) : Prop := tree.drv_flags dev &&& DM_FLAG_VITAL ≠ 0

instance (dev : ℕ) : Decidable (Flagged tree dev) := inferInstanceAs (Decidable (_ ≠ _))

instance (dev : ℕ) : Decidable (Vital tree dev) := inferInstanceAs (Decidable (_ ≠ _))

/-- An active vital device is at or below this one. -/
def Holds (dev : ℕ) : Prop := ∃ y, Below tree dev y ∧ s.activated y = true ∧ Vital tree y

/-- What a call for a device removes. -/
structure Goes (dev x : ℕ) : Prop where
  below : Below tree dev x
  free : keep = true → ¬Holds tree s x
  cause : active = true → ∃ a, Below tree dev a ∧ Below tree a x ∧ Flagged tree a ∧ (keep = true → ¬Vital tree a)

structure Removed (dev : ℕ) (r : State × ℤ) : Prop where
  activated : ∀ x, r.1.activated x = true ↔ s.activated x = true ∧ ¬Goes tree active keep s dev x
  deferred : keep = true ∧ Holds tree s dev → r.2 = - EPROBE_DEFER
  passed : ¬(keep = true ∧ Holds tree s dev) → r.2 = 0 ∨ r.2 = - EKEYREJECTED

/-- What the two passes do to the devices below a root. -/
structure Quiesced (root : ℕ) (first last : State) : Prop where
  quiet : ∀ x, Below tree root x → Flagged tree x → ¬last.activated x = true
  caused : ∀ x, s.activated x = true → ¬last.activated x = true → ¬Flagged tree x →
    ∃ a, a ≠ x ∧ Below tree a x ∧ Flagged tree a ∧ s.activated a = true ∧ ¬last.activated a = true
  vital : ∀ x, Vital tree x → s.activated x = true → first.activated x = true
  first_pass : ∀ x, Below tree root x → Flagged tree x → ¬Vital tree x → (∀ y, Below tree x y → y ≠ x → ¬Vital tree y) →
    ¬first.activated x = true

end

section
variable {env : Env} {tree : Tree} {active keep : Bool} {s : State} {dev : ℕ}

theorem flags_remove_eq : flags_remove (flags active keep) (tree.drv_flags dev) =
    if keep = true ∧ Vital tree dev then - EPROBE_DEFER else if active = true ∧ ¬Flagged tree dev then - EKEYREJECTED else 0 := by
  have normal : flags active keep &&& DM_REMOVE_NORMAL = 0 := by cases active <;> cases keep <;> decide
  have kept : flags active keep &&& DM_REMOVE_NON_VITAL = 0 ↔ ¬keep = true := by cases active <;> cases keep <;> decide
  have asked : flags active keep &&& DM_REMOVE_ACTIVE_ALL = 0 ↔ ¬active = true := by cases active <;> cases keep <;> decide
  have both (vital : ¬(keep = true ∧ Vital tree dev)) :
      (active = true → tree.drv_flags dev &&& flags active keep ≠ 0) ↔ (active = true → Flagged tree dev) := by
    refine imp_congr_right fun asked => ?_
    have parts : tree.drv_flags dev &&& flags active keep = tree.drv_flags dev &&& DM_REMOVE_ACTIVE_ALL := by
      have none_ : tree.drv_flags dev &&& (if keep then DM_REMOVE_NON_VITAL else 0) = 0 := by
        by_cases kept : keep = true
        · rw [if_pos kept]
          exact not_not.mp fun vital' => vital ⟨kept,vital'⟩
        · rw [if_neg kept,Nat.and_zero]
      rw [flags,if_pos asked,Nat.and_or_distrib_left,none_,Nat.or_zero]
    rw [parts,Flagged]
  unfold flags_remove
  rw [if_pos normal]
  by_cases vital : keep = true ∧ Vital tree dev
  · rw [if_pos vital,if_pos]
    rw [kept]
    exact fun either => either.elim (fun no => no vital.1) vital.2
  · rw [if_neg vital,if_neg]
    · refine if_congr ?_ rfl rfl
      rw [asked,← Classical.not_imp,← both vital]
      tauto
    · rw [kept]
      unfold Vital at vital
      tauto

theorem without_active_eq : without_active (flags active keep) = flags false keep := by
  cases active <;> cases keep <;> decide

theorem below_trans {a b c : ℕ} (first : Below tree a b) (second : Below tree b c) : Below tree a c := by
  induction second with
  | self => exact first
  | child parent _ ih => exact .child parent ih

/-- A device below another one is that one or below a child of it. -/
theorem below_cases (inv : Inv tree s) {x : ℕ} (below : Below tree dev x) (on : s.activated x = true) :
    x = dev ∨ ∃ c ∈ s.child_head dev, Below tree c x := by
  induction below with
  | self => exact .inl rfl
  | @child x p parent _ ih =>
    rcases ih (inv.active_parent x p on parent) with rfl | ⟨c,child,lower⟩
    · exact .inr ⟨x,(inv.child _ x).mpr ⟨inv.active_bound x on,parent⟩,.self⟩
    · exact .inr ⟨c,child,.child parent lower⟩

theorem below_child (inv : Inv tree s) {c x : ℕ} (child : c ∈ s.child_head dev) (lower : Below tree c x) : Below tree dev x :=
  below_trans (.child ((inv.child dev c).mp child).2 .self) lower

theorem below_rank (inv : Inv tree s) {rank : ℕ → ℕ} (falls : ∀ x p, s.bound x = true → tree.parent x = some p → rank x < rank p)
    {d x : ℕ} (below : Below tree d x) (on : s.activated x = true) : x = d ∨ rank x < rank d := by
  induction below with
  | self => exact .inl rfl
  | @child x p parent _ ih =>
    have step := falls x p (inv.active_bound x on) parent
    rcases ih (inv.active_parent x p on parent) with rfl | less
    · exact .inr step
    · exact .inr (step.trans less)

/-- After a call for one device the others are held as before. -/
theorem holds_same {t : State} {x : ℕ} (is : ∀ x, t.activated x = true ↔ s.activated x = true ∧ ¬Goes tree active keep s dev x)
    (kept : keep = true) : Holds tree t x ↔ Holds tree s x := by
  refine exists_congr fun y => and_congr_right fun _ => and_congr_left fun vital => ?_
  rw [is]
  exact ⟨And.left,fun on => ⟨on,fun goes => goes.free kept ⟨y,.self,on,vital⟩⟩⟩

theorem goes_same {t : State} {c x : ℕ} (is : ∀ x, t.activated x = true ↔ s.activated x = true ∧ ¬Goes tree active keep s dev x) :
    Goes tree active keep t c x ↔ Goes tree active keep s c x := by
  constructor
  · rintro ⟨below,free,cause⟩
    exact ⟨below,fun kept => by rw [← holds_same is kept]; exact free kept,cause⟩
  · rintro ⟨below,free,cause⟩
    exact ⟨below,fun kept => by rw [holds_same is kept]; exact free kept,cause⟩

theorem chld_remove_removed {remove : ℕ → State → State × ℤ} {children : List ℕ} {bound : ℕ → Bool}
    (calls : ∀ c ∈ children, ∀ t, Inv tree t → t.bound = bound → Removed tree active keep t c (remove c t) ∧
      Inv tree (remove c t).1 ∧ (remove c t).1.bound = bound) {result : ℤ} {t : State} (inv : Inv tree t) (boundIs : t.bound = bound) :
    (∀ x, (chld_remove_loop remove children result t).1.activated x = true ↔
      t.activated x = true ∧ ¬∃ c ∈ children, Goes tree active keep t c x) ∧
    (keep = true ∧ (∃ c ∈ children, Holds tree t c) → (chld_remove_loop remove children result t).2 = - EPROBE_DEFER) ∧
    (¬(keep = true ∧ ∃ c ∈ children, Holds tree t c) → (chld_remove_loop remove children result t).2 = result) := by
  induction children generalizing result t with
  | nil =>
    rw [chld_remove_loop]
    simp
  | cons pos rest ih =>
    obtain ⟨⟨activated,deferred,passed⟩,inv',bound'⟩ := calls pos mem_cons_self t inv boundIs
    have following := fun result => @ih (fun c member => calls c (mem_cons_of_mem _ member)) result (remove pos t).1 inv' bound'
    have goes : ∀ x, (∃ c ∈ rest, Goes tree active keep (remove pos t).1 c x) ↔ ∃ c ∈ rest, Goes tree active keep t c x :=
      fun x => exists_congr fun c => and_congr_right fun _ => goes_same activated
    have all : ∀ x, (remove pos t).1.activated x = true ∧ (¬∃ c ∈ rest, Goes tree active keep (remove pos t).1 c x) ↔
        t.activated x = true ∧ ¬∃ c ∈ pos :: rest, Goes tree active keep t c x := by
      intro x
      rw [goes,activated]
      simp only [mem_cons,exists_eq_or_imp,not_or,and_assoc]
    have held : keep = true → ((∃ c ∈ rest, Holds tree (remove pos t).1 c) ↔ ∃ c ∈ rest, Holds tree t c) :=
      fun kept => exists_congr fun c => and_congr_right fun _ => holds_same activated kept
    rw [chld_remove_loop]
    simp only
    by_cases holds : keep = true ∧ Holds tree t pos
    · rw [if_pos (deferred holds)]
      obtain ⟨on,yes,no⟩ := following (remove pos t).2
      refine ⟨fun x => (on x).trans (all x),fun _ => ?_,fun none_ => absurd ⟨holds.1,pos,mem_cons_self,holds.2⟩ none_⟩
      by_cases more : keep = true ∧ ∃ c ∈ rest, Holds tree (remove pos t).1 c
      · exact yes more
      · exact (no more).trans (deferred holds)
    have ret := passed holds
    have other : (remove pos t).2 ≠ - EPROBE_DEFER := by rcases ret with is | is <;> rw [is] <;> decide
    have accepted : ¬((remove pos t).2 ≠ 0 ∧ (remove pos t).2 ≠ - EKEYREJECTED) := by tauto
    rw [if_neg other,if_neg accepted]
    obtain ⟨on,yes,no⟩ := following result
    refine ⟨fun x => (on x).trans (all x),?_,fun none_ => no fun some_ => none_ ?_⟩
    · rintro ⟨kept,c,member,held_⟩
      rcases mem_cons.mp member with rfl | member
      · exact absurd ⟨kept,held_⟩ holds
      · exact yes ⟨kept,(held kept).mpr ⟨c,member,held_⟩⟩
    · obtain ⟨c,member,held_⟩ := (held some_.1).mp some_.2
      exact ⟨some_.1,c,mem_cons_of_mem _ member,held_⟩

theorem removed_quiet {t u : State} {r : State × ℤ} (quiet : Quiet t u) (removed : Removed tree active keep u dev r) :
    Removed tree active keep t dev r := by
  have holds : ∀ x, Holds tree u x ↔ Holds tree t x := fun x => by rw [Holds,Holds,quiet.activated]
  have goes : ∀ x, Goes tree active keep u dev x ↔ Goes tree active keep t dev x := fun x =>
    ⟨fun goes => ⟨goes.below,fun kept => (holds x).not.mp (goes.free kept),goes.cause⟩,
      fun goes => ⟨goes.below,fun kept => (holds x).not.mpr (goes.free kept),goes.cause⟩⟩
  refine ⟨fun x => ?_,fun held => removed.deferred (by rwa [holds]),fun free => removed.passed (by rwa [holds])⟩
  rw [removed.activated,goes,quiet.activated]

section
variable (inv : Inv tree s) (on : s.activated dev = true)
include inv on

theorem holds_cases : Holds tree s dev ↔ Vital tree dev ∨ ∃ c ∈ s.child_head dev, Holds tree s c := by
  constructor
  · rintro ⟨y,below,on',vital⟩
    rcases below_cases inv below on' with rfl | ⟨c,child,lower⟩
    · exact .inl vital
    · exact .inr ⟨c,child,y,lower,on',vital⟩
  · rintro (vital | ⟨c,child,y,lower,on',vital⟩)
    · exact ⟨dev,.self,on,vital⟩
    · exact ⟨y,below_child inv child lower,on',vital⟩

/-- A device that stays leaves its children to their own flags. -/
theorem goes_staying (stays : keep = true ∧ Vital tree dev ∨ active = true ∧ ¬Flagged tree dev) {x : ℕ} (on' : s.activated x = true) :
    (∃ c ∈ s.child_head dev, Goes tree active keep s c x) ↔ Goes tree active keep s dev x := by
  constructor
  · rintro ⟨c,child,goes⟩
    refine ⟨below_child inv child goes.below,goes.free,fun asked => ?_⟩
    obtain ⟨a,below,rest⟩ := goes.cause asked
    exact ⟨a,below_child inv child below,rest⟩
  intro goes
  -- the device that lets this one be removed is not the one that stays
  have cause : active = true → ∃ c ∈ s.child_head dev, ∃ a, Below tree c a ∧ Below tree a x ∧ Flagged tree a ∧ (keep = true → ¬Vital tree a) := by
    intro asked
    obtain ⟨a,below,lower,flagged,free⟩ := goes.cause asked
    rcases below_cases inv below (below_active inv lower on') with rfl | ⟨c,child,below⟩
    · rcases stays with ⟨kept,vital⟩ | ⟨-,unflagged⟩
      · exact absurd vital (free kept)
      · exact absurd flagged unflagged
    · exact ⟨c,child,a,below,lower,flagged,free⟩
  cases asked : active with
  | true =>
    obtain ⟨c,child,a,below,lower,rest⟩ := cause asked
    exact ⟨c,child,below_trans below lower,goes.free,fun _ => ⟨a,below,lower,rest⟩⟩
  | false =>
    rcases below_cases inv goes.below on' with rfl | ⟨c,child,lower⟩
    · rcases stays with ⟨kept,vital⟩ | ⟨no,-⟩
      · exact absurd ⟨x,.self,on,vital⟩ (goes.free kept)
      · rw [asked] at no
        cases no
    · exact ⟨c,child,lower,goes.free,fun no => by cases no⟩

variable {rank : ℕ → ℕ} (falls : ∀ x p, s.bound x = true → tree.parent x = some p → rank x < rank p)
include falls

theorem child_not_self {c : ℕ} (child : c ∈ s.child_head dev) : ¬Below tree c dev := by
  intro lower
  obtain ⟨there,parent⟩ := (inv.child dev c).mp child
  have less := falls c dev there parent
  rcases below_rank inv falls lower on with rfl | less'
  · omega
  · omega

/-- A device that is to be removed lets all its children be removed. -/
theorem goes_matched (free : keep = true → ¬Vital tree dev) (asked : active = true → Flagged tree dev) {x : ℕ} (on' : s.activated x = true) :
    (∃ c ∈ s.child_head dev, Goes tree false keep s c x) ↔ x ≠ dev ∧ Goes tree active keep s dev x := by
  constructor
  · rintro ⟨c,child,goes⟩
    refine ⟨?_,below_child inv child goes.below,goes.free,fun is => ⟨dev,.self,below_child inv child goes.below,asked is,free⟩⟩
    rintro rfl
    exact child_not_self inv on falls child goes.below
  · rintro ⟨other,goes⟩
    rcases below_cases inv goes.below on' with same | ⟨c,child,lower⟩
    · exact absurd same other
    · exact ⟨c,child,lower,goes.free,fun no => by cases no⟩

end

section
variable (succeeds : ∀ time hook dev, env.ret time hook dev = 0)
include succeeds

theorem ask_all_succeeds (hooks : List Hook) (t : State) : (ask_all env dev hooks t).2 = 0 := by
  induction hooks generalizing t with
  | nil => rfl
  | cons hook hooks ih =>
    have here : (ask env hook dev t).2 = 0 := succeeds _ _ _
    rw [ask_all]
    simp only
    rw [if_neg (not_not_intro here)]
    exact ih _

theorem remove_self_succeeds (t : State) : (remove_self env dev t).2 = 0 ∧
    (remove_self env dev t).1.activated = Function.update t.activated dev false := by
  have quiet : Quiet t (ask_all env dev [.pre_remove,.remove] t).1 := ask_all_quiet _ _ _
  unfold remove_self
  simp only
  rw [if_neg (not_not_intro (ask_all_succeeds succeeds _ t))]
  refine ⟨succeeds _ _ _,?_⟩
  show Function.update (ask_all env dev [.pre_remove,.remove] t).1.activated dev false = _
  rw [quiet.activated]

variable {rank : ℕ → ℕ} {bound : ℕ → Bool} (falls : ∀ x p, bound x = true → tree.parent x = some p → rank x < rank p)
include falls

theorem remove_removed {depth : ℕ} {t : State} (deep : rank dev < depth) (inv : Inv tree t) (boundIs : t.bound = bound) :
    Removed tree active keep t dev (device_remove env tree depth dev (flags active keep) t) := by
  induction depth generalizing dev active t with
  | zero => omega
  | succ depth ih =>
    rw [device_remove]
    by_cases on : t.activated dev = true
    swap
    · rw [if_pos on]
      have off : ∀ x, Below tree dev x → ¬t.activated x = true := fun x below on' => on (below_active inv below on')
      refine ⟨fun x => ⟨fun on' => ⟨on',fun goes => off x goes.below on'⟩,And.left⟩,?_,fun _ => .inl rfl⟩
      rintro ⟨-,y,below,on',-⟩
      exact absurd on' (off y below)
    rw [if_neg (not_not_intro on)]
    have notified : Quiet t (ask env .pre_remove_event dev t).1 := ask_quiet _ _ _
    have accepted : (ask env .pre_remove_event dev t).2 = 0 := succeeds _ _ _
    simp only
    rw [if_neg (not_not_intro accepted)]
    generalize (ask env .pre_remove_event dev t).1 = u at notified
    have inv' : Inv tree u := inv_of_quiet inv notified
    have bound' : u.bound = bound := notified.bound.trans boundIs
    have falls' : ∀ x p, u.bound x = true → tree.parent x = some p → rank x < rank p := by rwa [bound']
    rw [← notified.activated] at on
    refine removed_quiet notified ?_
    rw [flags_remove_eq]
    have calls (active : Bool) : ∀ c ∈ u.child_head dev, ∀ t, Inv tree t → t.bound = bound →
        Removed tree active keep t c (device_remove env tree depth c (flags active keep) t) ∧
          Inv tree (device_remove env tree depth c (flags active keep) t).1 ∧
            (device_remove env tree depth c (flags active keep) t).1.bound = bound := by
      intro c child t inv boundIs
      obtain ⟨there,parent⟩ := (inv'.child dev c).mp child
      have less := falls c dev (by rw [← bound']; exact there) parent
      have call := (@remove_calm env tree depth c (flags active keep) t).removes
      exact ⟨ih (by omega) inv boundIs,call.calm inv,call.bound.trans boundIs⟩
    have not_rejected : - EPROBE_DEFER ≠ - EKEYREJECTED := by decide
    have some_ : - EPROBE_DEFER ≠ 0 := by decide
    by_cases stays : keep = true ∧ Vital tree dev ∨ active = true ∧ ¬Flagged tree dev
    · obtain ⟨cret,is,nonzero,deferred,rejected⟩ : ∃ cret, (if keep = true ∧ Vital tree dev then - EPROBE_DEFER
          else if active = true ∧ ¬Flagged tree dev then - EKEYREJECTED else 0) = cret ∧ cret ≠ 0 ∧
          (keep = true ∧ Vital tree dev → cret = - EPROBE_DEFER) ∧ (¬(keep = true ∧ Vital tree dev) → cret = - EKEYREJECTED) := by
        refine ⟨_,rfl,?_⟩
        split_ifs with vital unflagged
        · exact ⟨some_,fun _ => rfl,fun no => absurd vital no⟩
        · exact ⟨by decide,fun is => absurd is vital,fun _ => rfl⟩
        · exact absurd stays (not_or.mpr ⟨vital,unflagged⟩)
      rw [is]
      simp only [if_pos nonzero]
      obtain ⟨on',yes,no⟩ := @chld_remove_removed tree active keep (fun pos => device_remove env tree depth pos (flags active keep)) _ bound
        (calls active) 0 u inv' bound'
      have activated := fun x => (on' x).trans (and_congr_right fun act => not_congr (goes_staying inv' on stays act))
      by_cases child : keep = true ∧ ∃ c ∈ u.child_head dev, Holds tree u c
      · rw [if_pos (by rw [yes child]; exact ⟨some_,not_rejected⟩)]
        exact ⟨activated,fun _ => yes child,fun no => absurd ⟨child.1,(holds_cases inv' on).mpr (.inr child.2)⟩ no⟩
      · rw [if_neg fun fails => fails.1 (no child)]
        refine ⟨activated,?_,fun free => .inr (rejected fun vital => free ⟨vital.1,(holds_cases inv' on).mpr (.inl vital.2)⟩)⟩
        rintro ⟨kept,holds⟩
        rcases (holds_cases inv' on).mp holds with vital | held
        · exact deferred ⟨kept,vital⟩
        · exact absurd ⟨kept,held⟩ child
    · obtain ⟨unvital,matched⟩ := not_or.mp stays
      have free : keep = true → ¬Vital tree dev := fun kept vital => unvital ⟨kept,vital⟩
      have asked : active = true → Flagged tree dev := fun is => not_not.mp fun unflagged => matched ⟨is,unflagged⟩
      rw [if_neg unvital,if_neg matched]
      simp only [ne_eq,not_true_eq_false,if_false,without_active_eq]
      obtain ⟨on',yes,no⟩ := @chld_remove_removed tree false keep (fun pos => device_remove env tree depth pos (flags false keep)) _ bound
        (calls false) 0 u inv' bound'
      have activated := fun x => (on' x).trans (and_congr_right fun act => not_congr (goes_matched inv' on falls' free asked act))
      by_cases child : keep = true ∧ ∃ c ∈ u.child_head dev, Holds tree u c
      · have holds := (holds_cases inv' on).mpr (.inr child.2)
        rw [if_pos (by rw [yes child]; exact ⟨some_,not_rejected⟩)]
        refine ⟨fun x => (activated x).trans (and_congr_right fun _ => ?_),fun _ => yes child,fun no => absurd ⟨child.1,holds⟩ no⟩
        refine not_congr ⟨And.right,fun goes => ⟨?_,goes⟩⟩
        rintro rfl
        exact goes.free child.1 holds
      have quiet : ¬(keep = true ∧ Holds tree u dev) := by
        rintro ⟨kept,holds⟩
        exact ((holds_cases inv' on).mp holds).elim (free kept) fun held => child ⟨kept,held⟩
      rw [if_neg fun fails => fails.1 (no child)]
      obtain ⟨ret,off⟩ := @remove_self_succeeds env dev succeeds
        (chld_remove_loop (fun pos => device_remove env tree depth pos (flags false keep)) (u.child_head dev) 0 u).1
      refine ⟨fun x => ?_,fun held => absurd held quiet,fun _ => .inl ret⟩
      rw [off]
      by_cases own : x = dev
      · subst own
        simp only [Function.update_self,Bool.false_eq_true,false_iff,not_and,not_not]
        exact fun _ => ⟨.self,fun kept holds => quiet ⟨kept,holds⟩,fun is => ⟨x,.self,.self,asked is,free⟩⟩
      · rw [Function.update_of_ne own,activated]
        simp only [own,ne_eq,not_false_eq_true,true_and]

end

/-! ## Two passes -/

end

/-- The device on the bus does DMA. -/
def dma_bus : Tree := { bus with drv_flags := fun d => if d = 1 then DM_REMOVE_ACTIVE_DMA else 0 }

def succeeding : Env := ⟨fun _ _ _ => 0,fun _ _ _ => [],fun _ _ _ => by decide⟩

def both_active : State := { both_bound with activated := fun d => d = 0 ∨ d = 1 }

end UBoot.DeviceQuiesce
