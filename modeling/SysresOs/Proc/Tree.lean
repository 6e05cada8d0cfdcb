import SysresOs.Proc.Family
import SysresOs.Proc.Fields
import SysresOs.Proc.Move

/-!
# The kernel keeps the process tree
-/

set_option autoImplicit false
set_option relaxedAutoImplicit false

namespace SysresOs.Proc

open SysresOs.Ring SysresOs.Outcome SysresOs.Trace

/-! ### The edits of the sibling lists -/

section Fields

variable (s : SystemState) (p : Pid) (x : Ptr)

theorem kin_setNext : (s.modify p fun d ↦ { d with nextSibling := x }).kin =
    { s.kin with next := Function.update s.kin.next p x } := by
  ext q <;> simp [SystemState.kin, Function.update_apply] <;> split_ifs <;> simp_all

theorem kin_setPrev : (s.modify p fun d ↦ { d with prevSibling := x }).kin =
    { s.kin with prev := Function.update s.kin.prev p x } := by
  ext q <;> simp [SystemState.kin, Function.update_apply] <;> split_ifs <;> simp_all

theorem kin_setChild : (s.modify p fun d ↦ { d with child := x }).kin =
    { s.kin with child := Function.update s.kin.child p x } := by
  ext q <;> simp [SystemState.kin, Function.update_apply] <;> split_ifs <;> simp_all

theorem kin_setParent (a : Pid) : (s.modify p fun d ↦ { d with parentPid := a }).kin =
    { s.kin with parent := Function.update s.kin.parent p a } := by
  ext q <;> simp [SystemState.kin, Function.update_apply] <;> split_ifs <;> simp_all

end Fields

theorem states_modify (s : SystemState) (p : Pid) {f : ProcDescriptor → ProcDescriptor}
    (hf : ∀ d, (f d).state = d.state) : (s.modify p f).states = s.states := by
  funext q
  change ((s.modify p f).procs q).state = (s.procs q).state
  rw [SystemState.modify_procs]
  split_ifs with hq
  · rw [hf, hq]
  · rfl

/-- The memory that `fork` gives the child leaves the states. -/
theorem states_setUpMemory (s : SystemState) (child : Pid) (mmuTablesStart : BitVec 64) :
    ((s.modify child (setUpMemoryNewProc mmuTablesStart)).modify child
      fun d ↦ { d with initialized := true }).states = s.states :=
  (states_modify _ child (f := fun d ↦ { d with initialized := true }) fun _ ↦ rfl).trans
    (states_modify s child (f := setUpMemoryNewProc mmuTablesStart) fun _ ↦ rfl)

/-- The links that `remove_child` writes, before it looks at the first child. -/
theorem unlink_kin {s s₁ s₂ : SystemState} {child w z : Pid} (hw : s.kin.prev child = some w)
    (hz : s.kin.next child = some z)
    (hs₁ : s₁ = s.modify w fun d ↦ { d with nextSibling := (s.procs child).nextSibling })
    (hs₂ : s₂ = s₁.modify z fun d ↦ { d with prevSibling := (s₁.procs child).prevSibling }) :
    s₂.states = s.states ∧ s₂.kin = { s.kin with
      next := Function.update s.kin.next w (some z)
      prev := Function.update s.kin.prev z (some w) } := by
  have hstates₁ : s₁.states = s.states := by
    rw [hs₁]
    exact states_modify s w fun _ ↦ rfl
  have hnext : s₁.kin = { s.kin with next := Function.update s.kin.next w (some z) } := by
    rw [hs₁, kin_setNext, ← hz]
    rfl
  have hprev : s₁.kin.prev child = some w := by
    rw [hnext]
    exact hw
  refine ⟨?_, ?_⟩
  · rw [hs₂, ← hstates₁]
    exact states_modify s₁ z fun _ ↦ rfl
  · rw [hs₂, kin_setPrev, hnext, ← hprev]
    rfl

/-- The update of the first child in `remove_child`. -/
theorem dropHead_kin {s : SystemState} {N : Kinship} {parent child w z : Pid}
    (hz : N.next child = some z)
    (hkin : s.kin = { N with
      next := Function.update N.next w (some z)
      prev := Function.update N.prev z (some w) }) :
    Yields (if (s.procs parent).child = some child then
        Except.ok (s.modify parent fun d ↦ { d with
          child := if (s.procs child).nextSibling = some child then none
            else (s.procs child).nextSibling })
      else (Except.ok s : Except Stop SystemState)) fun s' ↦
        s'.states = s.states ∧ s'.kin = N.remove parent child w z := by
  have hhead : (s.procs parent).child = N.child parent :=
    congrFun (congrArg Kinship.child hkin) parent
  have hnext : (s.procs child).nextSibling = some z := by
    have hsame : s.kin.next child = Function.update N.next w (some z) child := by rw [hkin]
    change s.kin.next child = some z
    rw [hsame, Function.update_apply]
    split_ifs
    · rfl
    · exact hz
  rw [hhead, hnext]
  refine Yields.ite (fun hfirst ↦ .ok ⟨?_, ?_⟩) fun hfirst ↦ .ok ⟨rfl, ?_⟩
  · exact states_modify s parent fun _ ↦ rfl
  · rw [kin_setChild, hkin, Kinship.remove, if_pos hfirst]
    simp only [Option.some.injEq]
  · rw [hkin, Kinship.remove, if_neg hfirst]

/-- `remove_child`. -/
theorem removeChild_kin {s : SystemState} {parent child : Pid} :
    Yields (removeChild s parent child) fun s' ↦ s'.states = s.states ∧ ∃ w z,
      s.kin.prev child = some w ∧ s.kin.next child = some z ∧
        s'.kin = s.kin.remove parent child w z := by
  refine Yields.bind (P := fun w ↦ s.kin.prev child = some w) (fun w hw ↦ deref_eq_ok.mp hw)
    fun w hw ↦ ?_
  refine Yields.bind (P := fun z ↦ s.kin.next child = some z) (fun z hz ↦ ?_) fun z hz ↦ ?_
  · -- The successor of the child is not changed by the assignment to its predecessor.
    refine Eq.trans ?_ (deref_eq_ok.mp hz)
    rw [SystemState.modify_procs]
    split_ifs <;> rfl
  obtain ⟨hstates, hkin⟩ := unlink_kin hw hz rfl rfl
  exact (dropHead_kin hz hkin).mono fun s' hs' ↦ ⟨hs'.1.trans hstates, w, z, hw, hz, hs'.2⟩

/-- The links that `add_child` writes. -/
theorem linkSibling_kin {s : SystemState} {parent child : Pid}
    (hhead : s.kin.child parent ≠ some child) :
    Yields (linkSibling s child (s.procs parent).child) fun s' ↦ s'.states = s.states ∧
      ∃ links, s.kin.Finds parent links ∧ s'.kin = { s.kin with
        next := (s.kin.adopt parent child links).next
        prev := (s.kin.adopt parent child links).prev } := by
  cases hfirst : (s.procs parent).child with
  | none =>
    refine .ok ⟨states_modify s child fun _ ↦ rfl, none, hfirst, ?_⟩
    ext q <;> simp [SystemState.kin, Kinship.adopt, Function.update_apply] <;> split_ifs <;>
      simp_all
  | some head =>
    have hne : head ≠ child := fun heq ↦ hhead (hfirst.trans (congrArg some heq))
    refine Yields.bind (P := fun w ↦ s.kin.prev head = some w) (fun w hw ↦ ?_) fun w hw ↦ ?_
    · refine Eq.trans ?_ (deref_eq_ok.mp hw)
      simp [SystemState.kin, hne, hne.symm]
    · refine .ok ⟨?_, some (head, w), ⟨hfirst, hw⟩, ?_⟩
      · funext q
        simp only [SystemState.states, SystemState.modify_procs]
        split_ifs <;> simp_all
      · rw [kin_setNext, kin_setPrev, kin_setPrev, kin_setNext]
        have hprev : ((s.modify child fun d ↦ { d with nextSibling := some head }).procs
            head).prevSibling = some w := by
          rw [SystemState.modify_procs, if_neg hne]
          exact hw
        rw [hprev]
        rfl

/-- `add_child`. -/
theorem addChild_kin {s : SystemState} {parent child : Pid}
    (hhead : s.kin.child parent ≠ some child) :
    Yields (addChild s parent child) fun s' ↦ s'.states = s.states ∧
      ∃ links, s.kin.Finds parent links ∧ s'.kin = { s.kin with
        child := Function.update s.kin.child parent (some child)
        next := (s.kin.adopt parent child links).next
        prev := (s.kin.adopt parent child links).prev } := by
  refine (linkSibling_kin hhead).bind fun t ht ↦ .ok ?_
  obtain ⟨hstates, links, hfinds, hkin⟩ := ht
  refine ⟨Eq.trans ?_ hstates, links, hfinds, ?_⟩
  · exact states_modify t parent fun _ ↦ rfl
  · rw [kin_setChild, hkin]

/-! ### The loops over the sibling lists -/

/-- `print_children` counts a list that it can follow. -/
theorem countSiblings_ends {s : SystemState} {head child : Pid} {l : List Pid} {bound : ℕ}
    (hchain : List.IsChain (Link s.kin.next s.kin.prev) (child :: (l ++ [head])))
    (hbound : l.length < bound) : Ends (countSiblings s head bound child) := by
  induction l generalizing child bound with
  | nil =>
    obtain ⟨n, rfl⟩ : ∃ n, bound = n + 1 := ⟨bound - 1, by simp at hbound; omega⟩
    have hnext : (s.procs child).nextSibling = some head := (List.isChain_cons_cons.mp hchain).1.1
    refine ⟨0, bind_eq_ok.mpr ⟨head, deref_eq_ok.mpr hnext, if_pos rfl⟩⟩
  | cons b m ih =>
    obtain ⟨n, rfl⟩ : ∃ n, bound = n + 1 := ⟨bound - 1, by simp at hbound; omega⟩
    obtain ⟨hlink, hrest⟩ := List.isChain_cons_cons.mp hchain
    have hnext : (s.procs child).nextSibling = some b := hlink.1
    refine Ends.bind ⟨b, deref_eq_ok.mpr hnext⟩ fun next hb ↦ ?_
    obtain rfl := Option.some.inj (hnext.symm.trans (deref_eq_ok.mp hb))
    refine Ends.ite (fun _ ↦ .ok) fun _ ↦ Ends.bind (ih hrest ?_) fun _ _ ↦ .ok
    simpa using hbound

/-- The scan of `syscall_wait` over a list that it enters at `head` ends at a node of the list,
which has exited if any of those after the head has. -/
theorem scanZombie_spec {s : SystemState} {head child : Pid} {l : List Pid} {bound : ℕ}
    (hchain : List.IsChain (Link s.kin.next s.kin.prev) (child :: (l ++ [head])))
    (halone : l = [] → child = head) (hhead : head ∉ l) (hbound : l.length < bound) :
    ∃ c, scanZombie s head bound child = .ok c ∧ (c = head ∨ c ∈ l) ∧
      (s.states c = .zombie ∨ ∀ d ∈ l, s.states d ≠ .zombie) := by
  induction l generalizing child bound with
  | nil =>
    obtain ⟨n, rfl⟩ : ∃ n, bound = n + 1 := ⟨bound - 1, by simp at hbound; omega⟩
    have hnext : (s.procs child).nextSibling = some head := (List.isChain_cons_cons.mp hchain).1.1
    -- A single child is its own successor.
    have hself : (s.procs head).nextSibling = some head := halone rfl ▸ hnext
    refine ⟨head, bind_eq_ok.mpr ⟨head, deref_eq_ok.mpr hnext, ?_⟩, .inl rfl, .inr nofun⟩
    exact if_neg fun hgo ↦ hgo.2 hself
  | cons b m ih =>
    obtain ⟨n, rfl⟩ : ∃ n, bound = n + 1 := ⟨bound - 1, by simp at hbound; omega⟩
    obtain ⟨hlink, hrest⟩ := List.isChain_cons_cons.mp hchain
    have hscan : scanZombie s head (n + 1) child =
        if (s.procs b).state ≠ .zombie ∧ (s.procs b).nextSibling ≠ some head then
          scanZombie s head n b else .ok b := by
      have hnext : (s.procs child).nextSibling = some b := hlink.1
      rw [scanZombie, hnext]
      rfl
    rw [hscan]
    by_cases hgo : (s.procs b).state ≠ .zombie ∧ (s.procs b).nextSibling ≠ some head
    · rw [if_pos hgo]
      have hmore : m ≠ [] := by
        rintro rfl
        exact hgo.2 (List.isChain_cons_cons.mp hrest).1.1
      obtain ⟨c, hc, hmem, hzombie⟩ := ih hrest (fun hnil ↦ absurd hnil hmore)
        (fun hmem ↦ hhead (List.mem_cons_of_mem b hmem)) (by simpa using hbound)
      refine ⟨c, hc, hmem.imp_right (List.mem_cons_of_mem b), hzombie.imp_right fun hnone d hd ↦ ?_⟩
      rcases List.mem_cons.mp hd with rfl | hd
      · exact hgo.1
      · exact hnone d hd
    · rw [if_neg hgo]
      refine ⟨b, rfl, .inr List.mem_cons_self, ?_⟩
      by_cases hzombie : (s.procs b).state = .zombie
      · exact .inl hzombie
      · -- The scan stopped at the last node.
        have hlast : (s.procs b).nextSibling = some head := by
          by_contra hne
          exact hgo ⟨hzombie, hne⟩
        have hnil : m = [] := by
          cases m with
          | nil => rfl
          | cons d m =>
            have hd : (s.procs b).nextSibling = some d := (List.isChain_cons_cons.mp hrest).1.1
            obtain rfl := Option.some.inj (hlast.symm.trans hd)
            exact absurd (List.mem_cons_of_mem b List.mem_cons_self) hhead
        refine .inr fun d hd ↦ ?_
        rw [hnil, List.mem_singleton] at hd
        rw [hd]
        exact hzombie

/-- The loop of `syscall_exit` gives every node of a list to `init`. -/
theorem reparentLoop_kin {s : SystemState} {head child : Pid} {l : List Pid} {bound : ℕ}
    (hchain : List.IsChain (Link s.kin.next s.kin.prev) (child :: (l ++ [head])))
    (hhead : head ∉ l) (hbound : l.length < bound) :
    ∃ s', reparentLoop head bound s child = .ok s' ∧ s'.states = s.states ∧
      s'.kin = s.kin.orphan (child :: l) := by
  induction l generalizing s child bound with
  | nil =>
    obtain ⟨n, rfl⟩ : ∃ n, bound = n + 1 := ⟨bound - 1, by simp at hbound; omega⟩
    have hnext : s.kin.next child = some head := (List.isChain_cons_cons.mp hchain).1.1
    have hkin := kin_setParent s child initPid
    rw [← congrFun (congrArg Kinship.next hkin) child] at hnext
    refine ⟨_, bind_eq_ok.mpr ⟨head, deref_eq_ok.mpr hnext, if_pos rfl⟩, ?_, ?_⟩
    · exact states_modify s child fun _ ↦ rfl
    · rw [hkin]
      ext q <;> simp [Kinship.orphan, Function.update_apply]
  | cons b m ih =>
    obtain ⟨n, rfl⟩ : ∃ n, bound = n + 1 := ⟨bound - 1, by simp at hbound; omega⟩
    obtain ⟨hlink, hrest⟩ := List.isChain_cons_cons.mp hchain
    have hkin := kin_setParent s child initPid
    have hnext : s.kin.next child = some b := hlink.1
    rw [← congrFun (congrArg Kinship.next hkin) child] at hnext
    have hne : b ≠ head := fun heq ↦ hhead (heq ▸ List.mem_cons_self)
    have hrest' : List.IsChain (Link (s.modify child fun d ↦ { d with
        parentPid := initPid }).kin.next
        (s.modify child fun d ↦ { d with
          parentPid := initPid }).kin.prev) (b :: (m ++ [head])) := by
      rw [hkin]
      exact hrest
    obtain ⟨s', hs', hstates, hkin'⟩ := ih hrest'
      (fun hmem ↦ hhead (List.mem_cons_of_mem b hmem)) (by simpa using hbound)
    refine ⟨s', bind_eq_ok.mpr ⟨b, deref_eq_ok.mpr hnext, ?_⟩, hstates.trans ?_, ?_⟩
    · rw [if_neg hne]
      exact hs'
    · exact states_modify s child fun _ ↦ rfl
    · rw [hkin', hkin]
      ext1 <;> try rfl
      ext1 q
      simp only [Kinship.orphan, Function.update_apply, List.mem_cons]
      by_cases hq : q = child
      · simp [hq]
      · simp [hq]

theorem reportStatus_kin {s : SystemState} {parent child : Pid} {retStatusAddr : BitVec 64} :
    Yields (reportStatus s parent child retStatusAddr) fun t ↦
      t.states = s.states ∧ t.kin = s.kin := by
  refine Yields.ite (fun _ ↦ .ok ⟨rfl, rfl⟩) fun _ ↦ Yields.bind_any fun buff ↦ .ok ⟨?_, ?_⟩
  · exact states_modify s parent fun _ ↦ rfl
  · exact kin_modify s parent fun _ ↦ rfl

/-- `handle_zombie_child`. -/
theorem handleZombieChild_kin {s : SystemState} {parent child : Pid} :
    Yields (handleZombieChild s parent child) fun s' ↦
      s'.states = Function.update (Function.update s.states child .free) parent .runnable ∧
      ∃ w z, s.kin.prev child = some w ∧ s.kin.next child = some z ∧
        s'.kin = s.kin.remove parent child w z := by
  have hstates₀ := states_modify s parent (f := (·.setX0 (ofPid (s.procs child).pid))) fun _ ↦ rfl
  have hkin₀ := kin_modify s parent (f := (·.setX0 (ofPid (s.procs child).pid))) fun _ ↦ rfl
  refine reportStatus_kin.bind fun t ⟨hstates, hkin⟩ ↦ removeChild_kin.bind fun u hu ↦ ?_
  rw [hstates₀] at hstates
  rw [hkin₀] at hkin
  obtain ⟨hstates', w, z, hw, hz, hkin'⟩ := hu
  refine Yields.bind (fun v hv ↦ changeState_kin hv) fun v ⟨hkinv, hstatesv⟩ s' hs' ↦ ?_
  obtain ⟨hkin'', hstates''⟩ := changeState_kin hs'
  rw [hkin] at hw hz hkin'
  rw [hstates'', hstatesv, hstates', hstates, hkin'', hkinv, hkin']
  exact ⟨rfl, w, z, hw, hz, rfl⟩

/-! ### The paths that leave the tree alone -/

/-- Neither the channels nor the way to the kernel and back edit the tree. -/
theorem kinData_idle : Idle ProcDescriptor.kinData :=
  ⟨⟨fun _ _ _ ↦ rfl, fun _ _ ↦ rfl, fun _ _ ↦ rfl, fun _ _ ↦ rfl, fun _ _ ↦ rfl, fun _ _ ↦ rfl,
    fun _ _ ↦ rfl⟩, fun _ _ ↦ rfl, fun _ _ _ ↦ rfl, fun _ _ ↦ rfl⟩

/-- The system calls that edit the process tree: `fork`, `exit` and `wait`. -/
def TreeCode (code : BitVec 16) : Prop := code = 0 ∨ code = 1 ∨ code = 2

/-- Every other step keeps the kinship. -/
theorem step_kin {k : Kernel} {a : Action}
    (ha : ∀ code frame, a = .svc code frame → ¬ TreeCode code) :
    Yields (step k a) fun r ↦ r.1.sys.kin = k.sys.kin := by
  have h : Has ProcDescriptor.kinData (fun q ↦ (k.sys.procs q).kinData) k.sys := fun _ ↦ rfl
  have hidle := kinData_idle
  suffices hsame : Yields (step k a) fun r ↦ Has ProcDescriptor.kinData
      (fun q ↦ (k.sys.procs q).kinData) r.1.sys from fun r hr ↦ kin_congr (hsame r hr)
  cases a with
  | start =>
    exact Yields.ite (fun _ ↦ (hidle.runProcess h initPid).bind fun _ hr ↦ .ok hr) fun _ ↦ .error
  | svc code frame =>
    have hcode := ha code frame rfl
    refine Yields.ite (fun _ ↦ .error) fun _ ↦ (hidle.saveContext h frame _).bind fun t ht ↦ ?_
    refine Yields.ite (fun _ ↦ (hidle.runProcess ht _).bind fun _ hr ↦ .ok hr) fun _ ↦
      Yields.bind ?_ fun _ hs ↦ .ok hs
    exact Yields.ite (fun hc ↦ absurd (.inl hc) hcode) fun _ ↦
      Yields.ite (fun hc ↦ absurd (.inr (.inl hc)) hcode) fun _ ↦
      Yields.ite (fun hc ↦ absurd (.inr (.inr hc)) hcode) fun _ ↦
      Yields.ite (fun _ ↦ hidle.steady.syscallSend ht) fun _ ↦
      Yields.ite (fun _ ↦ hidle.steady.syscallReceive ht) fun _ ↦
      Yields.ite (fun _ ↦ hidle.steady.syscallAcknowledge ht) fun _ ↦ .error
  | timer frame =>
    exact Yields.ite (fun _ ↦ .error) fun _ ↦ (hidle.saveContext h frame _).bind fun _ ht ↦ .ok ht
  | schedule counter =>
    exact Yields.ite (fun _ ↦ (hidle.schedule h counter).bind fun _ hr ↦ .ok hr) fun _ ↦ .error

theorem saveContext_kin {k : Kernel} {frame : Frame} {svcCode : Option (BitVec 16)} :
    Yields (saveContext k frame svcCode) fun t ↦ t.sys.kin = k.sys.kin := fun t ht ↦
  kin_congr (kinData_idle.saveContext (fun _ ↦ rfl) frame svcCode t ht)

theorem saveContext_states {k : Kernel} {frame : Frame} {svcCode : Option (BitVec 16)} :
    Yields (saveContext k frame svcCode) fun t ↦ t.sys.states = k.sys.states := by
  intro t ht
  obtain ⟨buffer, rfl⟩ := saveContext_eq_ok ht
  exact states_modify k.sys k.sys.currPid (f := (·.trapped frame svcCode buffer)) fun _ ↦ rfl

/-! ### The system calls that edit the tree -/

/-- A state that only the steps of the tree enter and leave. -/
def TreeState (st : ProcState) : Prop := st = .free ∨ st = .zombie ∨ st = .waiting

/-- The steps of the system on the tree, with the code of a system call: what the step of the
process `p` makes of the kinship, of the states and of the lists of children. -/
inductive TreeMove (N : Kinship) (st : Pid → ProcState) (kids : Pid → List Pid) (p : Pid) :
    Option (BitVec 16) → Kinship → (Pid → ProcState) → (Pid → List Pid) → Prop
  | quiet {code : Option (BitVec 16)} {st' : Pid → ProcState} (hcode : code ≠ some 1)
      (hsame : ∀ q, st' q = st q ∨ (¬ TreeState (st' q) ∧ ¬ TreeState (st q))) :
      TreeMove N st kids p code N st' kids
  | forks {c : Pid} {links : Option (Pid × Pid)} (hrun : st p = .runnable) (hfree : st c = .free)
      (hslot : 2 ≤ c.val) (hlinks : N.Finds p links) :
      TreeMove N st kids p (some 0) (N.adopt p c links) (Function.update st c .runnable)
        (adoptKids kids p c)
  | exits (hrun : st p = .runnable) (hwait : st (N.parent p) ≠ .waiting) :
      TreeMove N st kids p (some 1) (N.orphan (kids p)) (Function.update st p .zombie) kids
  | exitReaped {w z : Pid} (hrun : st p = .runnable) (hslot : 2 ≤ p.val)
      (hwait : st (N.parent p) = .waiting) (hw : N.prev p = some w) (hz : N.next p = some z) :
      TreeMove N st kids p (some 1) ((N.orphan (kids p)).remove (N.parent p) p w z)
        (Function.update (Function.update st p .free) (N.parent p) .runnable)
        (Function.update kids (N.parent p) ((kids (N.parent p)).erase p))
  | reaps {c w z : Pid} (hrun : st p = .runnable) (hc : c ∈ kids p) (hzombie : st c = .zombie)
      (hw : N.prev c = some w) (hz : N.next c = some z) :
      TreeMove N st kids p (some 2) (N.remove p c w z)
        (Function.update (Function.update st c .free) p .runnable)
        (Function.update kids p ((kids p).erase c))
  | waits (hrun : st p = .runnable) (hne : kids p ≠ []) (hnone : ∀ c ∈ kids p, st c ≠ .zombie) :
      TreeMove N st kids p (some 2) N (Function.update st p .waiting) kids

theorem alive_of_runnable {st : ProcState} (h : st = .runnable) : st.Alive := by
  rw [h]
  exact ⟨nofun, nofun⟩

theorem alive_of_waiting {st : ProcState} (h : st = .waiting) : st.Alive := by
  rw [h]
  exact ⟨nofun, nofun⟩

section Moves

variable {N N' : Kinship} {st st' : Pid → ProcState} {kids kids' : Pid → List Pid} {p : Pid}
  {code : Option (BitVec 16)}

theorem Family.not_mem_self (h : Family N st kids) (hp : (st p).Alive) : p ∉ kids p := fun hmem ↦
  h.proper p (h.mem p hp p hmem).1 (h.mem p hp p hmem).2

/-- The parent of a process that exits. -/
theorem Family.parent_orphan (h : Family N st kids) (hp : (st p).Alive) :
    (N.orphan (kids p)).parent p = N.parent p := if_neg (h.not_mem_self hp)

/-- States that agree on the states of the tree. -/
theorem treeState_iff (hsame : ∀ q, st' q = st q ∨ (¬ TreeState (st' q) ∧ ¬ TreeState (st q)))
    {s₀ : ProcState} (hs₀ : TreeState s₀) (q : Pid) : st' q = s₀ ↔ st q = s₀ := by
  rcases hsame q with heq | ⟨hnew, hold⟩
  · rw [heq]
  · refine iff_of_false ?_ ?_
    · rintro rfl
      exact hnew hs₀
    · rintro rfl
      exact hold hs₀

/-- Every step leaves a family. -/
theorem Family.move (h : Family N st kids) (hmove : TreeMove N st kids p code N' st' kids') :
    Family N' st' kids' := by
  cases hmove with
  | quiet hcode hsame =>
    exact h.congr (treeState_iff hsame (.inl rfl)) (treeState_iff hsame (.inr (.inl rfl)))
  | forks hrun hfree hslot hlinks => exact h.adopt (alive_of_runnable hrun) hfree hslot hlinks
  | exits hrun hwait => exact h.exit (alive_of_runnable hrun)
  | exitReaped hrun hslot hwait hw hz =>
    have hlive := alive_of_runnable hrun
    have hne : N.parent p ≠ p := by
      intro heq
      rw [heq, hrun] at hwait
      exact nomatch hwait
    have hreap := (h.exit hlive).reap ⟨hslot, by rw [Function.update_self]; nofun⟩
      (Function.update_self ..) (h.parent_orphan hlive)
      (by rw [Function.update_of_ne hne]; exact alive_of_waiting hwait) hw hz
    rwa [Function.update_idem] at hreap
  | reaps hrun hc hzombie hw hz =>
    have hlive := alive_of_runnable hrun
    obtain ⟨hmember, hparent⟩ := h.mem p hlive _ hc
    exact h.reap hmember hzombie hparent hlive hw hz
  | waits hrun hne hnone =>
    refine h.congr (fun q ↦ ?_) fun q ↦ ?_
    all_goals
      rw [Function.update_apply]
      split_ifs with hq
      · rw [hq, hrun]
        exact iff_of_false nofun nofun
      · rfl

/-- Every step leaves no process that waits for a child that has exited. -/
theorem Awaited.move (h : Awaited st kids) (hfamily : Family N st kids)
    (hmove : TreeMove N st kids p code N' st' kids') : Awaited st' kids' := by
  cases hmove with
  | quiet hcode hsame =>
    intro q hq
    obtain ⟨hne, hnone⟩ := h q ((treeState_iff hsame (.inr (.inr rfl)) q).mp hq)
    exact ⟨hne, fun c hc hc' ↦ hnone c hc ((treeState_iff hsame (.inr (.inl rfl)) c).mp hc')⟩
  | forks hrun hfree hslot hlinks => exact h.adopt (by rw [hrun]; nofun)
  | exits hrun hwait => exact h.exit hfamily hwait
  | exitReaped hrun hslot hwait hw hz =>
    have hothers : ∀ q, q ≠ N.parent p → Function.update st p .zombie q = .waiting →
        kids q ≠ [] ∧ ∀ c ∈ kids q, Function.update st p .zombie c ≠ .zombie :=
      fun q hq ↦ h.exit_of_ne hfamily hq
    have hreap := Awaited.reap (c := p) hothers
    rwa [Function.update_idem] at hreap
  | reaps hrun hc hzombie hw hz => exact Awaited.reap fun q _ ↦ h q
  | waits hrun hne hnone =>
    have hzombie : ∀ c, Function.update st p .waiting c = .zombie → st c = .zombie := by
      intro c hc
      rw [Function.update_apply] at hc
      split_ifs at hc
      exact hc
    intro q hq
    by_cases hqp : q = p
    · rw [hqp]
      exact ⟨hne, fun c hc hc' ↦ hnone c hc (hzombie c hc')⟩
    · rw [Function.update_of_ne hqp] at hq
      obtain ⟨hne, hnone⟩ := h q hq
      exact ⟨hne, fun c hc hc' ↦ hnone c hc (hzombie c hc')⟩

end Moves

/-- What a system call of a tree makes of the kinship and the states. -/
def MovesTree (s : SystemState) (kids : Pid → List Pid) (code : BitVec 16) (s' : SystemState) :
    Prop :=
  ∃ kids', TreeMove s.kin s.states kids s.lastPid (some code) s'.kin s'.states kids'

section TreeCalls

variable {s s' : SystemState} {kids : Pid → List Pid}

theorem MovesTree.same {code : BitVec 16} (hcode : code ≠ 1) (hkin : s'.kin = s.kin)
    (hstates : s'.states = s.states) : MovesTree s kids code s' := by
  refine ⟨kids, ?_⟩
  rw [hkin, hstates]
  exact .quiet (by simpa using hcode) fun _ ↦ .inl rfl

theorem MovesTree.modify {code : BitVec 16} (h : MovesTree s kids code s') (p : Pid)
    {f : ProcDescriptor → ProcDescriptor} (hkin : ∀ d, (f d).kinData = d.kinData)
    (hstate : ∀ d, (f d).state = d.state) : MovesTree s kids code (s'.modify p f) := by
  obtain ⟨kids', h⟩ := h
  refine ⟨kids', ?_⟩
  rw [kin_modify s' p hkin, states_modify s' p hstate]
  exact h

/-- The kinship when the new descriptor is in its slot. -/
def Kinship.reset (N : Kinship) (parent child : Pid) : Kinship where
  parent := Function.update N.parent child parent
  child := Function.update N.child child none
  next := Function.update N.next child none
  prev := Function.update N.prev child none

/-- The new descriptor overwrites what `add_child` writes again. -/
theorem Kinship.adopt_reset (N : Kinship) (parent child : Pid) (links : Option (Pid × Pid)) :
    { N.reset parent child with
      child := Function.update (N.reset parent child).child parent (some child)
      next := ((N.reset parent child).adopt parent child links).next
      prev := ((N.reset parent child).adopt parent child links).prev } =
        N.adopt parent child links := by
  cases links with
  | none =>
    simp only [Kinship.adopt, Kinship.reset, Function.update_idem]
  | some ab =>
    simp only [Kinship.adopt, Kinship.reset, Function.update_idem]

theorem forkSlot_kin {s : SystemState} {child : Pid} (hpid : (s.procs s.lastPid).pid = s.lastPid)
    (hfree : s.states child = .free) :
    (forkSlot s child).kin = s.kin.reset s.lastPid child ∧
      (forkSlot s child).states = s.states := by
  have hkin := has_forkSlot ProcDescriptor.kinData (fun _ _ ↦ rfl) s child
  have hchild : ((forkSlot s child).procs child).kinData = (s.lastPid, none, none, none) := by
    rw [forkSlot_child]
    exact congrArg (·, none, none, none) hpid
  have hstates := has_forkSlot ProcDescriptor.state (fun _ _ ↦ rfl) s child
  rw [forkSlot_child] at hstates
  refine ⟨?_, (funext hstates).trans ((congrArg (Function.update _ child) hfree.symm).trans
    (Function.update_eq_self ..))⟩
  rw [hchild] at hkin
  have hpart {β : Type} (g : Pid × Ptr × Ptr × Ptr → β) (q : Pid) :
      g ((forkSlot s child).procs q).kinData = Function.update (fun q ↦ g (s.procs q).kinData) child
        (g (s.lastPid, none, none, none)) q :=
    (congrArg g (hkin q)).trans (Function.apply_update (fun _ ↦ g) ..)
  ext1 <;> ext1 q
  · exact hpart (·.1) q
  · exact hpart (·.2.1) q
  · exact hpart (·.2.2.1) q
  · exact hpart (·.2.2.2) q

/-- A free slot is not the first child of a process. -/
theorem Family.ne_of_free {p child a : Pid} (hfamily : Family s.kin s.states kids)
    (hlive : (s.states p).Alive) (hfree : s.states child = .free)
    (ha : s.kin.child p = some a) : a ≠ child := by
  rintro rfl
  have hmem : a ∈ kids p := List.mem_of_head? ((hfamily.head _ hlive).symm.trans ha)
  exact (hfamily.mem _ hlive a hmem).1.2 hfree

theorem syscallFork_tree (hfamily : Family s.kin s.states kids)
    (hrun : s.states s.lastPid = .runnable) (hpid : (s.procs s.lastPid).pid = s.lastPid)
    (mmuTablesStart : BitVec 64) :
    Yields (syscallFork mmuTablesStart s) (MovesTree s kids 0) := by
  intro s' hs'
  cases forks_of_syscallFork mmuTablesStart s s' hs' with
  | failed no =>
    exact .same (by decide) (kin_modify s _ fun _ ↦ rfl) (states_modify s _ fun _ ↦ rfl)
  | forked child t u hfind _ ht hu =>
    obtain ⟨hslot, hfree⟩ := findFreeProc_free hfind
    have hne : s.lastPid ≠ child := by
      intro heq
      have hfree' : s.states s.lastPid = .free := by
        rw [heq]
        exact hfree
      exact nomatch hfree'.symm.trans hrun
    have hlive := alive_of_runnable hrun
    obtain ⟨hkin, hstates⟩ := forkSlot_kin hpid hfree
    have hfirst : (s.kin.reset s.lastPid child).child s.lastPid = s.kin.child s.lastPid :=
      Function.update_of_ne hne ..
    have hother : ∀ a, s.kin.child s.lastPid = some a → a ≠ child := fun _ ha ↦
      hfamily.ne_of_free hlive hfree ha
    have hhead : (s.kin.reset s.lastPid child).child s.lastPid ≠ some child := by
      rw [hfirst]
      exact fun heq ↦ hother child heq rfl
    rw [← hkin] at hhead
    obtain ⟨hstates', links, hfinds, hkin'⟩ := addChild_kin hhead t ht
    rw [hkin, Kinship.adopt_reset] at hkin'
    rw [hkin] at hfinds
    have hlinks : s.kin.Finds s.lastPid links := by
      cases links with
      | none => exact hfirst.symm.trans hfinds
      | some ab =>
        have hchild := hfirst.symm.trans hfinds.1
        exact ⟨hchild, (Function.update_of_ne (hother _ hchild) ..).symm.trans hfinds.2⟩
    obtain ⟨hkin'', hstates''⟩ := changeState_kin hu
    refine MovesTree.modify ?_ child (fun _ ↦ rfl) fun _ ↦ rfl
    refine MovesTree.modify ?_ child (fun _ ↦ rfl) fun _ ↦ rfl
    refine ⟨adoptKids kids s.lastPid child, ?_⟩
    rw [hkin'', hstates'', hkin', hstates', hstates]
    exact .forks hrun hfree hslot hlinks

theorem Family.length_le {N : Kinship} {st : Pid → ProcState} (h : Family N st kids) {p : Pid}
    (hp : (st p).Alive) : (kids p).length ≤ maxProc := by
  have hcard := (h.ring p hp).nodup.length_le_card
  rwa [Fintype.card_fin] at hcard

theorem printChildren_ends (h : Family s.kin s.states kids) {p : Pid} (hp : (s.states p).Alive) :
    Ends (printChildren s p) := by
  have hring := h.ring p hp
  have hhead : (s.procs p).child = (kids p).head? := h.head p hp
  have hlength := h.length_le hp
  unfold printChildren
  rw [hhead]
  cases hkids : kids p with
  | nil => exact .ok
  | cons head l =>
    rw [hkids] at hring hlength
    exact Ends.bind (countSiblings_ends hring.closed hlength) fun _ _ ↦ .ok

/-- `wait` fails without children, reaps a child that has exited when there is one, and waits
otherwise. -/
theorem syscallWait_eq (h : Family s.kin s.states kids) (hlive : (s.states s.lastPid).Alive) :
    (kids s.lastPid = [] ∧ syscallWait s = .ok (s.modify s.lastPid (·.fail noChild))) ∨
    (∃ c ∈ kids s.lastPid, s.states c = .zombie ∧
      syscallWait s = handleZombieChild s s.lastPid c) ∨
    (kids s.lastPid ≠ [] ∧ (∀ c ∈ kids s.lastPid, s.states c ≠ .zombie) ∧
      syscallWait s = changeState s s.lastPid .waiting) := by
  obtain ⟨n, hn⟩ := printChildren_ends h hlive
  have hring := h.ring s.lastPid hlive
  have hhead : (s.procs s.lastPid).child = (kids s.lastPid).head? := h.head s.lastPid hlive
  have hlength := h.length_le hlive
  unfold syscallWait
  simp only [hn, ok_bind, hhead]
  cases hkids : kids s.lastPid with
  | nil => exact .inl ⟨rfl, rfl⟩
  | cons head l =>
    rw [hkids] at hring hlength
    simp only [List.head?_cons]
    by_cases hzombie : (s.procs head).state = .zombie
    · exact .inr (.inl ⟨head, List.mem_cons_self, hzombie, if_pos hzombie⟩)
    · obtain ⟨c, hc, hmem, hdone⟩ := scanZombie_spec hring.closed (fun _ ↦ rfl)
        (List.nodup_cons.mp hring.nodup).1 hlength
      rw [if_neg hzombie, hc, ok_bind]
      by_cases hfound : (s.procs c).state = .zombie
      · exact .inr (.inl ⟨c, List.mem_cons.mpr hmem, hfound, if_pos hfound⟩)
      · refine .inr (.inr ⟨List.cons_ne_nil head l, fun d hd ↦ ?_, if_neg hfound⟩)
        rcases List.mem_cons.mp hd with rfl | hd
        · exact hzombie
        · exact hdone.resolve_left hfound d hd

theorem syscallWait_tree (hfamily : Family s.kin s.states kids)
    (hrun : s.states s.lastPid = .runnable) : Yields (syscallWait s) (MovesTree s kids 2) := by
  have hlive := alive_of_runnable hrun
  rcases syscallWait_eq hfamily hlive with ⟨-, hwait⟩ | ⟨c, hc, hzombie, hwait⟩ |
    ⟨hne, hnone, hwait⟩
  · rw [hwait]
    exact .ok (.same (by decide) (kin_modify s _ fun _ ↦ rfl) (states_modify s _ fun _ ↦ rfl))
  · rw [hwait]
    refine handleZombieChild_kin.mono fun s' ⟨hstates, w, z, hw, hz, hkin⟩ ↦
      ⟨Function.update kids s.lastPid ((kids s.lastPid).erase c), ?_⟩
    rw [hstates, hkin]
    exact .reaps hrun hc hzombie hw hz
  · rw [hwait]
    intro s' hs'
    obtain ⟨hkin, hstates⟩ := changeState_kin hs'
    refine ⟨kids, ?_⟩
    rw [hkin, hstates]
    exact .waits hrun hne hnone

/-- `exit` gives the children to `init`. -/
theorem reparent_kin (h : Family s.kin s.states kids) {p : Pid} (hlive : (s.states p).Alive) :
    ∃ t, reparent s (s.procs p).child = .ok t ∧ t.states = s.states ∧
      t.kin = s.kin.orphan (kids p) := by
  have hring := h.ring p hlive
  have hhead : (s.procs p).child = (kids p).head? := h.head p hlive
  have hlength := h.length_le hlive
  rw [hhead]
  cases hkids : kids p with
  | nil => exact ⟨s, rfl, rfl, rfl⟩
  | cons head l =>
    rw [hkids] at hring hlength
    exact reparentLoop_kin hring.closed (List.nodup_cons.mp hring.nodup).1 hlength

/-- The state in which the loop of `exit` starts. -/
def exitingState (s : SystemState) : SystemState :=
  s.modify s.lastPid fun d ↦
    { d with err := { d.err with no := (d.reg 0).setWidth 32, data := d.reg 1 } }

theorem exitingState_kin (s : SystemState) :
    (exitingState s).kin = s.kin ∧ (exitingState s).states = s.states :=
  ⟨kin_modify s _ fun _ ↦ rfl, states_modify s _ fun _ ↦ rfl⟩

/-- After its children are given to `init`, a process that exits is reported to its parent if that
waits, and is a zombie otherwise. -/
theorem syscallExit_eq (h : Family s.kin s.states kids) (hlive : (s.states s.lastPid).Alive) :
    ∃ t, t.states = s.states ∧ t.kin = s.kin.orphan (kids s.lastPid) ∧
      syscallExit s = if s.states (t.kin.parent s.lastPid) = .waiting then
          handleZombieChild t (t.kin.parent s.lastPid) s.lastPid
        else changeState t s.lastPid .zombie := by
  obtain ⟨hkin, hstates⟩ := exitingState_kin s
  rw [← hkin, ← hstates] at h
  rw [← hstates] at hlive
  obtain ⟨t, ht, hstates', hkin'⟩ := reparent_kin h hlive
  rw [hkin] at hkin'
  rw [hstates] at hstates'
  refine ⟨t, hstates', hkin', ?_⟩
  have hexit : syscallExit s = (do
      let t ← reparent (exitingState s) ((exitingState s).procs s.lastPid).child
      if (t.procs (t.procs s.lastPid).parentPid).state = .waiting then
        handleZombieChild t (t.procs s.lastPid).parentPid s.lastPid
      else changeState t s.lastPid .zombie) := rfl
  rw [hexit, ht, ok_bind, ← hstates']
  rfl

theorem syscallExit_tree (hfamily : Family s.kin s.states kids)
    (hrun : s.states s.lastPid = .runnable) (hlast : s.lastPid ≠ 0) :
    Yields (syscallExit s) (MovesTree s kids 1) := by
  have hlive := alive_of_runnable hrun
  obtain ⟨t, hstates, hkin, hexit⟩ := syscallExit_eq hfamily hlive
  have hparent : t.kin.parent s.lastPid = s.kin.parent s.lastPid := by
    rw [hkin]
    exact hfamily.parent_orphan hlive
  rw [hexit, hparent]
  refine Yields.ite (fun hwait ↦ ?_) fun hwait s' hs' ↦ ?_
  · -- Only `init` has no parent but itself.
    have hslot : 2 ≤ s.lastPid.val := by
      have hinit : s.lastPid ≠ initPid := by
        intro heq
        rw [heq, hfamily.root, ← heq, hrun] at hwait
        exact nomatch hwait
      have hzero : s.lastPid.val ≠ 0 := fun heq ↦ hlast (Fin.ext heq)
      have hone : s.lastPid.val ≠ 1 := fun heq ↦ hinit (Fin.ext heq)
      omega
    refine handleZombieChild_kin.mono fun s' ⟨hstates', w, z, hw, hz, hkin'⟩ ↦
      ⟨Function.update kids (s.kin.parent s.lastPid)
        ((kids (s.kin.parent s.lastPid)).erase s.lastPid), ?_⟩
    rw [hkin] at hw hz
    rw [hstates', hkin', hstates, hkin]
    exact .exitReaped hrun hslot hwait hw hz
  · obtain ⟨hkin', hstates'⟩ := changeState_kin hs'
    refine ⟨kids, ?_⟩
    rw [hkin', hstates', hstates, hkin]
    exact .exits hrun hwait

end TreeCalls

/-! ### The invariant over runs -/

theorem Active.treeState {c w : View} {p : Pid} {code : BitVec 16} (h : Active c p code w)
    (hcode : ¬ TreeCode code) (hc : ¬ TreeState c.state) : ¬ TreeState w.state := by
  cases h with
  | failed no _ => exact hc
  | sendTooLarge target => exact hc
  | spurious => exact hc
  | acks hsize => exact hc
  | forks child => exact absurd (.inl rfl) hcode
  | exits => exact absurd (.inr (.inl rfl)) hcode
  | exitsFree => exact absurd (.inr (.inl rfl)) hcode
  | waits => exact absurd (.inr (.inr rfl)) hcode
  | reaps child hzombie => exact absurd (.inr (.inr rfl)) hcode
  | sendWaits target htarget hsize => rintro (h | h | h) <;> exact nomatch h
  | sends target htarget hsize => rintro (h | h | h) <;> exact nomatch h
  | listens => rintro (h | h | h) <;> exact nomatch h
  | receives sender hwaits htarget => rintro (h | h | h) <;> exact nomatch h

theorem Passive.treeState {c v w : View} {p q : Pid} {code : BitVec 16}
    (h : Passive c v p q code w) (hcode : ¬ TreeCode code) :
    w.state = v.state ∨ (¬ TreeState w.state ∧ ¬ TreeState v.state) := by
  have hnot : ∀ {st : ProcState}, st = .runnable ∨ st = .listeningCh ∨ st = .waitListener ∨
      st = .sendingCh → ¬ TreeState st := by
    rintro st (rfl | rfl | rfl | rfl) (h | h | h) <;> exact nomatch h
  cases h with
  | kept => exact .inl rfl
  | born prio hfree hslot => exact absurd (.inl rfl) hcode
  | woken hwait => exact absurd (.inr (.inl rfl)) hcode
  | buried hzombie => exact absurd (.inr (.inr rfl)) hcode
  | receives hlisten => exact .inr ⟨hnot (.inl rfl), hnot (.inr (.inl hlisten))⟩
  | refused hwaits htarget => exact .inl rfl
  | delivered hwaits htarget =>
    exact .inr ⟨hnot (.inr (.inr (.inr rfl))), hnot (.inr (.inr (.inl hwaits)))⟩
  | released hsize hack hstate htarget hsource =>
    exact .inr ⟨hnot (.inl rfl), hnot (.inr (.inr (.inr hstate)))⟩

/-- A step that is not one of the tree's keeps the slots that are free, have exited or wait. -/
theorem Move.sameStates {V V' : Views} {currPid currPid' : Pid} {e : Event}
    (h : Move V currPid e V' currPid') (hsane : Sane V currPid)
    (ha : ∀ code frame, e.action = .svc code frame → ¬ TreeCode code) (q : Pid) :
    (V' q).state = (V q).state ∨ (¬ TreeState (V' q).state ∧ ¬ TreeState (V q).state) := by
  generalize hw : V' q = w
  have hchange := h.change hsane q
  rw [hw] at hchange
  cases hchange with
  | kept hcurr hresume => exact .inl rfl
  | unaware hq hresume => exact .inl rfl
  | resumed write hresume hcurr hrun hwrite => exact .inl rfl
  | timer frame hevent hcurr hq => exact .inl rfl
  | again frame write hevent hcurr hq hwrite => exact .inl rfl
  | active hevent hcurr hq hactive =>
    have hrun : ¬ TreeState (V q).state := by
      rw [hq, hsane.running hcurr]
      rintro (h | h | h) <;> exact nomatch h
    exact .inr ⟨hactive.treeState (ha _ _ (by rw [hevent])) hrun, hrun⟩
  | passive hevent hcurr hq hpassive => exact hpassive.treeState (ha _ _ (by rw [hevent]))

theorem syscall_tree {s : SystemState} {kids : Pid → List Pid} (h : Family s.kin s.states kids)
    (hrun : s.states s.lastPid = .runnable) (hpid : (s.procs s.lastPid).pid = s.lastPid)
    (hlast : s.lastPid ≠ 0) {code : BitVec 16} (hcode : TreeCode code)
    (mmuTablesStart : BitVec 64) :
    Yields (syscall code mmuTablesStart s) (MovesTree s kids code) := by
  rcases hcode with rfl | rfl | rfl
  · exact syscallFork_tree h hrun hpid mmuTablesStart
  · exact syscallExit_tree h hrun hlast
  · exact syscallWait_tree h hrun

/-- The code of a system call. -/
def Action.code : Action → Option (BitVec 16)
  | .svc code _ => some code
  | _ => none

/-- Every step is one of the steps on the tree. -/
theorem treeMove_of_step {k k' : Kernel} {e : Event} {kids : Pid → List Pid}
    (h : Family k.sys.kin k.sys.states kids) (hsane : Sane k.sys.views k.sys.currPid)
    (hstep : Step k e k') :
    ∃ kids', TreeMove k.sys.kin k.sys.states kids k.sys.currPid e.action.code
      k'.sys.kin k'.sys.states
      kids' := by
  by_cases ha : ∀ code frame, e.action = .svc code frame → ¬ TreeCode code
  · refine ⟨kids, ?_⟩
    have hkin : k'.sys.kin = k.sys.kin := step_kin ha _ hstep
    rw [hkin]
    refine .quiet (fun hcode ↦ ?_) ((move_of_step hsane hstep).sameStates hsane ha)
    cases haction : e.action with
    | svc code frame =>
      rw [haction] at hcode
      exact ha code frame haction (.inr (.inl (Option.some.inj hcode)))
    | _ =>
      rw [haction] at hcode
      exact nomatch hcode
  · push Not at ha
    obtain ⟨code, frame, ha, hcode⟩ := ha
    refine (?_ : Yields (Proc.step k e.action) fun r ↦ ∃ kids', TreeMove k.sys.kin k.sys.states kids
      k.sys.currPid e.action.code r.1.sys.kin r.1.sys.states kids') _ hstep
    rw [ha]
    refine Yields.ite (fun _ ↦ .error) fun hcurr ↦ ?_
    refine Yields.bind (P := fun t ↦ saveContext k frame (some code) = .ok t) (fun _ ht ↦ ht)
      fun t ht ↦ ?_
    have hkin := saveContext_kin t ht
    have hstates := saveContext_states t ht
    obtain ⟨hview, hlast, -⟩ := saveContext_views k frame (some code) t ht
    have hrun := hsane.running hcurr
    rw [← hkin, ← hstates] at h ⊢
    rw [← hlast]
    refine Yields.ite (fun hc ↦ ?_) fun _ ↦ Yields.bind (syscall_tree h ?_ ?_ ?_ hcode _)
      fun _ hs ↦ .ok hs
    · rw [hc] at hcode
      exact absurd hcode (by unfold TreeCode; decide)
    · rw [hstates, hlast]
      exact hrun
    · rw [hlast]
      change (t.sys.views k.sys.currPid).pid = k.sys.currPid
      rw [hview, Views.set_self]
      exact hsane.pid _ (by rw [hrun]; decide)
    · rw [hlast]
      exact hcurr

/-- The sibling lists are those of a family, and no process waits for a child that has exited. -/
def FamilyInv (s : SystemState) : Prop := ∃ kids, Family s.kin s.states kids ∧ Awaited s.states kids

theorem Booted.kin {k : Kernel} (h : Booted k) :
    k.sys.kin.parent initPid = initPid ∧ k.sys.kin.parent kernelPid = kernelPid ∧
      ∀ q, k.sys.kin.child q = none := by
  obtain ⟨boot, hboot⟩ := h
  obtain ⟨s, hs, hsys⟩ := initProc_eq_ok hboot
  have hkin : k.sys.kin = (bootSys boot).kin := by
    refine kin_congr (?_ : Has ProcDescriptor.kinData _ k.sys)
    rw [hsys]
    refine Has.modify ?_ initPid fun _ ↦ rfl
    refine Has.modify ?_ initPid fun _ ↦ rfl
    refine Has.modify ?_ kernelPid fun _ ↦ rfl
    refine Has.modify ?_ initPid fun _ ↦ rfl
    exact kinData_idle.steady.changeState (fun _ ↦ rfl) initPid .runnable s hs
  rw [hkin]
  refine ⟨rfl, rfl, fun q ↦ ?_⟩
  change ((bootSys boot).procs q).child = none
  unfold bootSys
  dsimp only
  split_ifs <;> rfl

/-- At boot no slot has been given to a process by a fork. -/
theorem Booted.not_member {k : Kernel} (h : Booted k) (c : Pid) : ¬ Member k.sys.states c := by
  intro hc
  have hslot := hc.1
  refine hc.2 ?_
  change (k.sys.views c).state = .free
  rw [(Booted.views h).1, bootViews, if_neg, if_neg]
  · rfl
  · rintro rfl
    exact absurd hslot (by decide)
  · rintro rfl
    exact absurd hslot (by decide)

/-- At boot only the kernel and `init` are in use. -/
theorem slot_of_boot {k : Kernel} (h : Booted k) {q : Pid} (hq : q ≠ 0)
    (hstate : k.sys.states q ≠ .free) : q = initPid := by
  have hslot : ¬ 2 ≤ q.val := fun hslot ↦ Booted.not_member h q ⟨hslot, hstate⟩
  have hzero : q.val ≠ 0 := fun hval ↦ hq (Fin.ext hval)
  refine Fin.ext ?_
  change q.val = 1
  omega

theorem familyInv_boot {k : Kernel} (h : Booted k) : FamilyInv k.sys := by
  obtain ⟨hroot, -, hchild⟩ := Booted.kin h
  have hview := (Booted.views h).1
  have hnone := Booted.not_member h
  refine ⟨fun _ ↦ [], ⟨fun c hc ↦ absurd hc (hnone c), fun c hc ↦ absurd hc (hnone c),
    fun c hc ↦ absurd hc (hnone c), hroot, fun p _ ↦ isRing_nil .., fun p _ ↦ hchild p,
    fun p _ c hc ↦ (nomatch hc), fun p _ _ c hc _ ↦ absurd hc (hnone c)⟩, fun p hp ↦ ?_⟩
  have hstate := bootViews_state p
  have hp : (k.sys.views p).state = .waiting := hp
  rw [hview] at hp
  rw [hp] at hstate
  rcases hstate with h | h | h <;> exact nomatch h

/-- In every reachable state the sibling lists are those of a family, and no process waits for a
child that has exited. -/
theorem SysRun.familyInv {history : History} {k : Kernel} (hrun : SysRun history k) :
    FamilyInv k.sys := by
  refine hrun.invariant (I := fun _ k ↦ FamilyInv k.sys) (fun k hk ↦ familyInv_boot hk)
    fun history k e k' hrun ⟨kids, hfamily, hawaited⟩ hstep ↦ ?_
  obtain ⟨kids', hmove⟩ := treeMove_of_step hfamily (SysRun.sane hrun) hstep
  exact ⟨kids', hfamily.move hmove, hawaited.move hfamily hmove⟩

end SysresOs.Proc
