import PepinOS.Lib.Holders
import PepinOS.Fs.DemoDisk
import PepinOS.Process.WildStore

/-!
# Open files

A file is open as a pair: a descriptor slot in the table of one task and an entry of
`node_pool`, the pool all tasks share. Either half is marked `used` by itself, and
nothing links back from the entry to the slot. `heldNode` is the link read off the
slots, and `FileInv` says that it is the only one: the entries in use are exactly
those that some slot points to, each from one slot (`Exclusive`).

`FilesDone` is what a step does to both halves. Only three calls do anything, and
each of them only when it succeeds; the exit of `SYS_OPEN` with no descriptor left
has taken an entry and gives the same one back.
-/

namespace PepinOS

/-! ## What a step does to the files -/

/-- The task and the descriptor of a call that has opened, read or closed. -/
def Event.slot : Event → Option (Fin 8 × Fin 8)
  | .opened t fd _ => some (t, fd)
  | .closed t fd => some (t, fd)
  | .read t fd _ _ => some (t, fd)
  | _ => none

/-- The steps of the guarded machine, as far as the descriptors and the node pool go. -/
inductive FilesDone (env : Env) (m : Machine) : Event → Machine → Prop where
  | same {ev : Event} {m' : Machine} : ev.slot = none →
      (∀ t, (m'.kern.task t).files = (m.kern.task t).files) →
      SameNodes m.kern.nodePool m'.kern.nodePool → FilesDone env m ev m'
  | opened {m' : Machine} {r : Regs} {i fd n : Fin 8} {node : FsNode} : m.mode = .entry r →
      m.kern.sched.cur = some i → (m.kern.nodePool n).used = false → node.used = true →
      node.read = some .ext2NodeRead → 3 ≤ fd.val → ((m.kern.task i).files fd).used = false →
      m'.kern.sched = m.kern.sched.setTask i ((m.kern.task i).setFd fd (openedFd n)) →
      m'.kern.nodePool = Function.update m.kern.nodePool n node →
      Names env.disk (env.link.behind m.kern) (m.calling.fetch env m.cr3) m.ext2 r.ebx node.inode →
      FilesDone env m (.opened i fd node.inode) m'
  | closed {m' : Machine} {i fd : Fin 8} : m.kern.sched.cur = some i → 3 ≤ fd.val →
      ((m.kern.task i).files fd).used = true →
      m'.kern.sched = m.kern.sched.setTask i ((m.kern.task i).setFd fd closedFd) →
      m'.kern.nodePool = vfsClose m.kern.nodePool ((m.kern.task i).files fd).node →
      FilesDone env m (.closed i fd) m'
  | read {m' : Machine} {r : Regs} {i fd : Fin 8} {d : Fd} {c : Copied Store} :
      m.mode = .entry r → m.kern.sched.cur = some i → 3 ≤ fd.val → (m.kern.task i).files fd = d →
      d.used = true →
      vfsRead env.disk (userStore env.link m.cr3) m.kern.nodePool m.ext2 (m.kern, m.mem) d.node
        d.offset r.edx r.ecx = .ok (m'.ext2, c) → c.bytes.length < 65536 →
      m'.kern.sched = m.kern.sched.setTask i ((m.kern.task i).setFd fd
        { d with offset := d.offset + BitVec.ofNat 32 c.bytes.length }) →
      m'.kern.nodePool = m.kern.nodePool →
      (∃ r' f, m'.mode = .leave r' f (BitVec.ofNat 32 c.bytes.length)) →
      FilesDone env m (.read i fd r.edx c.bytes) m'

section Steps

variable {env : Env} {m m' : Machine} {ev : Event}

theorem keyed_files (k : Kernel) (scancode : U8) (t : Fin 8) :
    ((k.keyed scancode).task t).files = (k.task t).files := by
  unfold Kernel.task
  rcases keyed_cases k scancode with ⟨_, hs⟩ | ⟨i, _, _, hs⟩
  · rw [hs]
  · rw [hs]
    exact setTask_frame Task.files (by rfl) t

theorem keyEvent_slot (k : Kernel) (scancode : U8) : (keyEvent k scancode).slot = none := by
  rcases keyed_cases k scancode with ⟨he, _⟩ | ⟨i, _, he, _⟩
  · rw [he]
    rfl
  · rw [he]
    rfl

theorem SwitchDone.slot {l : Link} {k : Kernel} {cr3 : U32} {mem : Mem} {ctx : Ctx}
    {i j : Fin 8} {s : Switched} (h : SwitchDone l k cr3 mem ctx i j s) : s.ev.slot = none := by
  cases h with
  | plain => rfl
  | signal => rfl

/-- **What a step does to the files.** -/
theorem StepDone.files (h : StepDone env m ev m') : FilesDone env.guarded m ev m' := by
  cases h with
  | still hs _ =>
    refine .same rfl (fun t => ?_) (hs.nodePool ▸ SameNodes.refl _)
    unfold Kernel.task
    rw [hs.sched]
  | keyed scancode _ =>
    exact .same (keyEvent_slot ..) (keyed_files m.kern scancode) (SameNodes.refl _)
  | switched _ _ _ _ hd =>
    obtain ⟨_, _, _, hn, _⟩ := hd.spec
    exact .same hd.slot (hd.frame Task.files rfl fun _ _ _ => rfl) (hn ▸ SameNodes.refl _)
  | @switchFault _ _ s _ _ _ _ hf =>
    refine .same rfl (hf.frame Task.files rfl fun _ _ => rfl) ?_
    generalize s.1 = k at hf
    cases hf with
    | lost => exact SameNodes.refl _
    | stack => exact SameNodes.refl _
  | @called r s f res ev hm hk hd =>
    -- the calls that write another part of the running task
    have frame : ∀ {i : Fin 8} {u : Task}, s.kern.sched = m.kern.sched.setTask i u →
        u.files = (m.kern.task i).files →
        ∀ t, (s.kern.task t).files = (m.kern.task t).files := by
      intro i u hs hu t
      unfold Kernel.task
      rw [hs]
      exact setTask_frame Task.files hu t
    cases hd with
    | quiet hs hn =>
      refine .same rfl (fun t => ?_) hn
      unfold Kernel.task
      exact congrArg (fun s : Sched => (s.pool t).files) hs
    | opened hcur hfree hu hr h3 hfd hs hp hnames =>
      exact .opened hm hcur hfree hu hr h3 hfd hs hp hnames
    | closed hcur h3 hu hs hp => exact .closed hcur h3 hu hs hp
    | read hcur h3 hd hu hread hlen hs hp => exact .read hm hcur h3 hd hu hread hlen hs hp ⟨_, _, rfl⟩
    | sigaction _ _ hs hp => exact .same rfl (frame hs (by rfl)) (hp ▸ SameNodes.refl _)
    | raised _ _ hs hp => exact .same rfl (frame hs (by rfl)) (hp ▸ SameNodes.refl _)
    | returned _ _ hs hp => exact .same rfl (frame hs (by rfl)) (hp ▸ SameNodes.refl _)
  | @killed r i sig pending _ _ =>
    exact .same rfl (killed_frame Task.files m.kern i sig pending fun _ _ => rfl) (SameNodes.refl _)

end Steps

/-! ## Who holds the entries of the pool -/

/-- The entry that slot `p.2` of task `p.1` points to, if both are in use. -/
def heldNode (k : Kernel) (p : Fin 8 × Fin 8) : Option (Fin 8) :=
  if p.1.val < k.sched.ntasks ∧ ((k.task p.1).files p.2).used = true then
    ((k.task p.1).files p.2).node
  else none

/-- The bookkeeping of open files. -/
structure FileInv (k : Kernel) : Prop where
  owned : Exclusive (heldNode k) fun n => (k.nodePool n).used
  std : ∀ t fd : Fin 8, t.val < k.sched.ntasks → fd.val < 3 → ((k.task t).files fd).used = false
  unused : ∀ t fd : Fin 8, t.val < k.sched.ntasks → ((k.task t).files fd).used = false →
    (k.task t).files fd = closedFd
  opened : ∀ t fd : Fin 8, t.val < k.sched.ntasks → ((k.task t).files fd).used = true →
    ∃ n, ((k.task t).files fd).node = some n ∧ (k.nodePool n).read = some .ext2NodeRead

section Files

variable {k k' : Kernel} {i fd : Fin 8} {d : Fd}

theorem heldNode_used {t fd : Fin 8} (ht : t.val < k.sched.ntasks)
    (hu : ((k.task t).files fd).used = true) :
    heldNode k (t, fd) = ((k.task t).files fd).node := if_pos ⟨ht, hu⟩

theorem heldNode_unused {t fd : Fin 8} (hu : ((k.task t).files fd).used = false) :
    heldNode k (t, fd) = none := by
  refine if_neg fun h => ?_
  rw [h.2] at hu
  cases hu

/-- The entry of a slot in use is in use. -/
theorem FileInv.node (h : FileInv k) {t fd : Fin 8} (ht : t.val < k.sched.ntasks)
    (hu : ((k.task t).files fd).used = true) : ∃ n, ((k.task t).files fd).node = some n ∧
      heldNode k (t, fd) = some n ∧ (k.nodePool n).used = true ∧
      (k.nodePool n).read = some .ext2NodeRead := by
  obtain ⟨n, hn, hr⟩ := h.opened t fd ht hu
  have hheld : heldNode k (t, fd) = some n := by rw [heldNode_used ht hu, hn]
  exact ⟨n, hn, hheld, (h.owned.held n).mpr ⟨_, hheld⟩, hr⟩

/-- The files of the tasks after slot `fd` of task `i` is set to `d`. -/
theorem setFd_files (hs : k'.sched = k.sched.setTask i ((k.task i).setFd fd d)) (t : Fin 8) :
    (k'.task t).files =
      if t = i then Function.update (k.task i).files fd d else (k.task t).files := by
  unfold Kernel.task
  rw [hs]
  split
  next ht =>
    rw [ht, setTask_pool_self]
    rfl
  next ht => rw [setTask_pool_ne _ _ ht]

theorem setFd_slot (hs : k'.sched = k.sched.setTask i ((k.task i).setFd fd d)) (t fd' : Fin 8) :
    (k'.task t).files fd' = if t = i ∧ fd' = fd then d else (k.task t).files fd' := by
  rw [setFd_files hs]
  by_cases ht : t = i
  · by_cases hf : fd' = fd
    · rw [if_pos ht, if_pos ⟨ht, hf⟩, hf, Function.update_self]
    · rw [if_pos ht, if_neg fun e => hf e.2, Function.update_of_ne hf, ht]
  · rw [if_neg ht, if_neg fun e => ht e.1]

theorem heldNode_setFd (hs : k'.sched = k.sched.setTask i ((k.task i).setFd fd d))
    (hi : i.val < k.sched.ntasks) :
    heldNode k' = Function.update (heldNode k) (i, fd) (if d.used = true then d.node else none) := by
  have hn : k'.sched.ntasks = k.sched.ntasks := by rw [hs]; rfl
  funext ⟨t, fd'⟩
  unfold heldNode
  simp only [setFd_slot hs, hn]
  by_cases he : t = i ∧ fd' = fd
  · obtain ⟨rfl, rfl⟩ := he
    rw [Function.update_self]
    simp only [and_self, if_true, hi, true_and]
  · have hne : (t, fd') ≠ (i, fd) := fun e => he (Prod.mk.inj e)
    rw [Function.update_of_ne hne, if_neg he]

/-- The flags after entry `n` is replaced. -/
theorem used_update (pool : NodePool) (n : Fin 8) (node : FsNode) :
    (fun q => (Function.update pool n node q).used) =
      Function.update (fun q => (pool q).used) n node.used := by
  funext q
  exact Function.apply_update (fun _ => FsNode.used) pool n node q

/-- Nothing but the descriptors, the flags and the entries in use matter. -/
theorem FileInv.congr (h : FileInv k) (hn : k'.sched.ntasks = k.sched.ntasks)
    (hf : ∀ t, (k'.task t).files = (k.task t).files) (hp : SameNodes k.nodePool k'.nodePool) :
    FileInv k' := by
  refine ⟨h.owned.congr (fun p => ?_) fun n => (hp n).1, ?_, ?_, fun t fd ht hu => ?_⟩
  · unfold heldNode
    rw [hf, hn]
  · simp only [hf, hn]
    exact h.std
  · simp only [hf, hn]
    exact h.unused
  · rw [hn] at ht
    rw [hf] at hu ⊢
    obtain ⟨n, hnode, _, hused, hr⟩ := h.node ht hu
    exact ⟨n, hnode, by rw [(hp n).2 hused]; exact hr⟩

/-- Slot `fd` of task `i` becomes `d`, and the pool follows. -/
theorem FileInv.setFd (h : FileInv k) (hs : k'.sched = k.sched.setTask i ((k.task i).setFd fd d))
    (hi : i.val < k.sched.ntasks) (h3 : 3 ≤ fd.val)
    (howned : Exclusive (Function.update (heldNode k) (i, fd)
      (if d.used = true then d.node else none)) fun n => (k'.nodePool n).used)
    (hclosed : d.used = false → d = closedFd)
    (hopened : d.used = true → ∃ n, d.node = some n ∧ (k'.nodePool n).read = some .ext2NodeRead)
    (hpool : ∀ t fd', some (i, fd) ≠ some (t, fd') → ∀ n, heldNode k (t, fd') = some n →
      k'.nodePool n = k.nodePool n) : FileInv k' := by
  have hn : k'.sched.ntasks = k.sched.ntasks := by rw [hs]; rfl
  refine ⟨by rw [heldNode_setFd hs hi]; exact howned, ?_, ?_, ?_⟩
  · intro t fd' ht hfd
    rw [setFd_slot hs, if_neg fun e => absurd hfd (by rw [e.2]; omega)]
    exact h.std t fd' (hn ▸ ht) hfd
  · intro t fd' ht hu
    rw [setFd_slot hs] at hu ⊢
    split at hu
    next he =>
      rw [if_pos he]
      exact hclosed hu
    next he =>
      rw [if_neg he]
      exact h.unused t fd' (hn ▸ ht) hu
  · intro t fd' ht hu
    rw [setFd_slot hs] at hu ⊢
    split at hu
    next he =>
      rw [if_pos he]
      exact hopened hu
    next he =>
      rw [if_neg he]
      obtain ⟨n, hnode, hheld, _, hr⟩ := h.node (hn ▸ ht) hu
      have hne : some (i, fd) ≠ some (t, fd') := by
        intro e
        cases e
        exact he ⟨rfl, rfl⟩
      exact ⟨n, hnode, by rw [hpool t fd' hne n hheld]; exact hr⟩

/-- **Descriptors are independent**: a slot the step is not about keeps its contents, and the
entry it holds stays as it is. -/
theorem FilesDone.other {env : Env} {m m' : Machine} {ev : Event} (hd : FilesDone env m ev m')
    (h : FileInv m.kern) (hsched : SchedInv m.kern.sched) {t fd : Fin 8}
    (hev : ev.slot ≠ some (t, fd)) :
    (m'.kern.task t).files fd = (m.kern.task t).files fd ∧
      ∀ q, heldNode m.kern (t, fd) = some q → m'.kern.nodePool q = m.kern.nodePool q := by
  have husedOf : ∀ q, heldNode m.kern (t, fd) = some q → (m.kern.nodePool q).used = true :=
    fun q hq => (h.owned.held q).mpr ⟨_, hq⟩
  have hslot : ∀ {i fd' : Fin 8}, some (i, fd') ≠ some (t, fd) → ¬(t = i ∧ fd = fd') := by
    rintro i fd' hne ⟨rfl, rfl⟩
    exact hne rfl
  cases hd with
  | same _ hf hp => exact ⟨congrFun (hf t) fd, fun q hq => (hp q).2 (husedOf q hq)⟩
  | opened _ _ hfree _ _ _ _ hs hp _ =>
    refine ⟨by rw [setFd_slot hs, if_neg (hslot hev)], fun q hq => ?_⟩
    rw [hp]
    refine Function.update_of_ne ?_ ..
    rintro rfl
    rw [husedOf _ hq] at hfree
    cases hfree
  | closed hcur _ hu hs hp =>
    refine ⟨by rw [setFd_slot hs, if_neg (hslot hev)], fun q hq => ?_⟩
    obtain ⟨n, hnode, hheld, _, _⟩ := h.node (hsched.cur_lt _ hcur) hu
    rw [hp, hnode]
    refine Function.update_of_ne ?_ ..
    rintro rfl
    exact hslot hev (Prod.mk.inj (h.owned.inj hq hheld))
  | read _ _ _ _ _ _ _ hs hp _ =>
    exact ⟨by rw [setFd_slot hs, if_neg (hslot hev)], fun q _ => by rw [hp]⟩

/-- **Every step keeps the books.** -/
theorem FilesDone.inv {env : Env} {m m' : Machine} {ev : Event} (hd : FilesDone env m ev m')
    (h : FileInv m.kern) (hsched : SchedInv m.kern.sched)
    (hn : m'.kern.sched.ntasks = m.kern.sched.ntasks) : FileInv m'.kern := by
  have hother := fun t fd (hev : ev.slot ≠ some (t, fd)) q => (hd.other h hsched hev).2 q
  cases hd with
  | same _ hf hp => exact h.congr hn hf hp
  | @opened _ r i fd n node _ hcur hfree hu hr h3 hfd hs hp _ =>
    have hi := hsched.cur_lt i hcur
    refine h.setFd hs hi h3 ?_ nofun (fun _ => ⟨n, rfl, ?_⟩) hother
    · rw [hp, used_update, hu]
      exact h.owned.take (heldNode_unused hfd) hfree
    · rw [hp, Function.update_self]
      exact hr
  | @closed _ i fd hcur h3 hu hs hp =>
    have hi := hsched.cur_lt i hcur
    obtain ⟨n, hnode, hheld, _, _⟩ := h.node hi hu
    refine h.setFd hs hi h3 ?_ (fun _ => rfl) nofun hother
    rw [hp, hnode]
    unfold vfsClose
    rw [used_update]
    exact h.owned.give hheld
  | @read _ r i fd d c _ hcur h3 hd hu _ _ hs hp _ =>
    have hi := hsched.cur_lt i hcur
    have hu' : ((m.kern.task i).files fd).used = true := by rw [hd]; exact hu
    obtain ⟨n, hnode, hheld, _, hr⟩ := h.node hi hu'
    rw [hd] at hnode
    refine h.setFd hs hi h3 ?_ (fun e => ?_) (fun _ => ⟨n, hnode, by rw [hp]; exact hr⟩) hother
    · -- the slot keeps its entry
      simp only [hu, if_true, hnode, hp]
      rw [← hheld, Function.update_eq_self]
      exact h.owned
    · have hfalse : d.used = false := e
      rw [hu] at hfalse
      cases hfalse

end Files

/-- At the start no file is open. -/
theorem Started.fileInv {m : Machine} (h : Started m) : FileInv m.kern := by
  have hfiles : ∀ t fd : Fin 8, t.val < m.kern.sched.ntasks →
      (m.kern.task t).files fd = closedFd := by
    intro t fd ht
    obtain ⟨_, _, _, _, _, he⟩ := h.tasks.task t ht
    unfold Kernel.task
    rw [he]
    rfl
  have hused : ∀ t fd : Fin 8, t.val < m.kern.sched.ntasks →
      ((m.kern.task t).files fd).used = false := by
    intro t fd ht
    rw [hfiles t fd ht]
    rfl
  refine ⟨.nobody (fun p => ?_) h.nodes, fun t fd ht _ => hused t fd ht,
    fun t fd ht _ => hfiles t fd ht, fun t fd ht hu => ?_⟩
  · refine if_neg fun hp => ?_
    rw [hused _ _ hp.1] at hp
    exact absurd hp.2 Bool.false_ne_true
  · rw [hused t fd ht] at hu
    cases hu

/-- The books are kept on every run. -/
theorem Started.run_fileInv {env : Env} {m0 m : Machine} {h : List Event} (hstart : Started m0)
    (hrun : Run (Step env.guarded) m0 h m) : FileInv m.kern ∧ SchedInv m.kern.sched := by
  refine hrun.ind (fun m => FileInv m.kern ∧ SchedInv m.kern.sched)
    ⟨hstart.fileInv, hstart.tasks.inv⟩ ?_
  rintro m ev m' ⟨hf, hs⟩ hstep
  obtain ⟨hs', hn⟩ := hstep.done.schedInv hs
  exact ⟨hstep.done.files.inv hf hs hn, hs'⟩

/-! ## Calls that fail -/

section Failed

variable {env : Env} {m m' : Machine} {ev : Event}

/-- A call that returns -1 has opened, read and closed nothing. -/
theorem CallDone.failed {cr3 : U32} {s s' : Calling} {f f' : Frame}
    (h : CallDone env cr3 s f s' f' minusOne ev) : ev.slot = none := by
  generalize hres : minusOne = res at h
  cases h with
  | quiet => rfl
  | @opened i fd =>
    -- a descriptor is below 8
    have hval := congrArg BitVec.toNat hres
    rw [BitVec.toNat_ofNat] at hval
    have hlt : fd.val % 2 ^ 32 ≤ fd.val := Nat.mod_le ..
    have hfd := fd.isLt
    have hone : minusOne.toNat = 4294967295 := rfl
    omega
  | closed => cases hres
  | @read i fd d c _ _ _ _ _ hlen =>
    have hval := congrArg BitVec.toNat hres
    rw [BitVec.toNat_ofNat] at hval
    have hlt : c.bytes.length % 2 ^ 32 ≤ c.bytes.length := Nat.mod_le ..
    have hone : minusOne.toNat = 4294967295 := rfl
    omega
  | sigaction => cases hres
  | raised => cases hres
  | returned => cases hres

theorem StepDone.failed (h : StepDone env m ev m') {r : Regs} {f : Frame}
    (hm : m'.mode = .leave r f minusOne) : ev.slot = none := by
  cases h with
  | still => rfl
  | keyed => exact keyEvent_slot ..
  | switched => cases hm
  | switchFault => cases hm
  | called _ _ hd =>
    cases hm
    exact hd.failed
  | killed => rfl

/-- A step that is about no file leaves the descriptors and the flags. -/
theorem FilesDone.unchanged (h : FilesDone env m ev m') (hev : ev.slot = none) :
    (∀ t, (m'.kern.task t).files = (m.kern.task t).files) ∧
      ∀ n, (m'.kern.nodePool n).used = (m.kern.nodePool n).used := by
  cases h with
  | same _ hf hp => exact ⟨hf, fun n => (hp n).1⟩
  | opened => cases hev
  | closed => cases hev
  | read => cases hev

end Failed

/-! ## The books -/

/-- The slots of the registered tasks that are in use. -/
def usedSlots (k : Kernel) : Set (Fin 8 × Fin 8) :=
  {p | p.1.val < k.sched.ntasks ∧ ((k.task p.1).files p.2).used = true}

def usedNodes (k : Kernel) : Set (Fin 8) := {n | (k.nodePool n).used = true}

/-- The slots in use and the entries in use are in bijection through the node pointers,
and every slot is in one of two states. -/
structure Bookkeeping (k : Kernel) : Prop where
  bijOn : Set.BijOn (fun p => ((k.task p.1).files p.2).node) (usedSlots k) (some '' usedNodes k)
  std : ∀ t fd : Fin 8, t.val < k.sched.ntasks → fd.val < 3 → ((k.task t).files fd).used = false
  unused : ∀ t fd : Fin 8, t.val < k.sched.ntasks → ((k.task t).files fd).used = false →
    ((k.task t).files fd).node = none ∧ ((k.task t).files fd).offset = 0#32
  used : ∀ t fd : Fin 8, t.val < k.sched.ntasks → ((k.task t).files fd).used = true →
    ∃ n, ((k.task t).files fd).node = some n ∧ (k.nodePool n).used = true ∧
      (k.nodePool n).read ≠ none

theorem FileInv.books {k : Kernel} (h : FileInv k) : Bookkeeping k := by
  refine ⟨?_, h.std, fun t fd ht hu => ?_, fun t fd ht hu => ?_⟩
  · have hslots : {p | heldNode k p ≠ none} = usedSlots k := by
      ext ⟨t, fd⟩
      constructor
      · intro hp
        by_contra hno
        exact hp (if_neg hno)
      · rintro ⟨ht, hu⟩
        obtain ⟨n, _, hheld, _⟩ := h.node ht hu
        show heldNode k (t, fd) ≠ none
        rw [hheld]
        exact Option.some_ne_none n
    have hbij := h.owned.bijOn
    rw [hslots] at hbij
    exact hbij.congr fun p hp => heldNode_used hp.1 hp.2
  · rw [h.unused t fd ht hu]
    exact ⟨rfl, rfl⟩
  · obtain ⟨n, hnode, _, hused, hr⟩ := h.node ht hu
    refine ⟨n, hnode, hused, ?_⟩
    rw [hr]
    exact Option.some_ne_none _

/-- **Open files are kept exactly**, on every run in which no store through a user pointer
lands in the kernel's own memory: the books are right in every state, and a call that
returns -1 leaves every descriptor and every flag of the pool. -/
theorem descriptors_exact {env : Env} {m0 m : Machine} {h : List Event} (hstart : Started m0)
    (hrun : Run (Step env.guarded) m0 h m) :
    Bookkeeping m.kern ∧
    ∀ ev m' r f, Step env.guarded m ev m' → m'.mode = .leave r f minusOne →
      (∀ t, (m'.kern.task t).files = (m.kern.task t).files) ∧
        ∀ n, (m'.kern.nodePool n).used = (m.kern.nodePool n).used := by
  refine ⟨(hstart.run_fileInv hrun).1.books, fun ev m' r f hstep hm => ?_⟩
  exact hstep.done.files.unchanged (hstep.done.failed hm)

/-! ## Task A opens and reads a file

Task A opens the one file of `demoDisk`, by the name that lies in its own saved SS, and
reads four bytes to wherever a word can be stored (`Demo.openRead`). -/

/-- The string `3` in task A's saved SS. -/
def demoPath : U32 := 0x110030#32

/-- The kernel when task A has opened its first file. -/
def Kernel.opened (k : Kernel) (node : FsNode) : Kernel :=
  ({ k with nodePool := Function.update k.nodePool 0 node }).setTask 0
    ((k.task 0).setFd 3 (openedFd 0))

theorem opened_slot (k : Kernel) (node : FsNode) (fd : Fin 8) :
    ((k.opened node).task 0).files fd = if fd = 3 then openedFd 0 else (k.task 0).files fd := by
  unfold Kernel.opened
  rw [Kernel.setTask_task_self]
  exact Function.update_apply ..

theorem opened_node (k : Kernel) (node : FsNode) : (k.opened node).nodePool 0 = node := by
  show Function.update k.nodePool 0 node 0 = node
  exact Function.update_self ..

section Run

variable {e : Ext2} {m : Machine} (hd : Demo e m)

include hd

theorem Demo.path (e' : Ext2) : userLoad wildLink m.cr3 m.kern m.mem e' demoPath = .ok 0x33#8 ∧
    userLoad wildLink m.cr3 m.kern m.mem e' (demoPath + 1#32) = .ok 0#8 := by
  have hlow : ∀ v : U32, v.toNat < identityTop → translate m.mem m.cr3 v = some v.toNat := by
    intro v hv
    rw [hd.cr3]
    exact hd.low hv
  have hss : (Field.regs 0 12).get m.kern = 0x33#32 := by
    show (m.kern.task 0).regs 12 = _
    rw [hd.taskA]
    rfl
  have hload : ∀ v : U32, v = demoPath ∨ v = demoPath + 1#32 →
      userLoad wildLink m.cr3 m.kern m.mem e' v =
        .ok (byteOf ((Field.regs 0 12).get m.kern) (v.toNat % 4)) := by
    rintro v (rfl | rfl)
    · unfold userLoad
      rw [hlow demoPath (Nat.le_of_ble_eq_true rfl)]
      rfl
    · unfold userLoad
      rw [hlow (demoPath + 1#32) (Nat.le_of_ble_eq_true rfl)]
      rfl
  rw [hload _ (.inl rfl), hload _ (.inr rfl), hss]
  exact ⟨rfl, rfl⟩

/-- **`SYS_OPEN`** of the file `3`. -/
theorem Demo.openFile (hv : DemoVolume e.vol) {env : Env} (hdisk : env.disk = demoDisk)
    (hlink : ∀ e' va, userLoad env.link m.cr3 m.kern m.mem e' va =
      userLoad wildLink m.cr3 m.kern m.mem e' va) :
    ∃ e1 node r, Run (Step env) m [.quiet, .opened 0 3 3#32, .quiet, .quiet]
        { m with kern := m.kern.opened node, ext2 := e1, mode := .user r } ∧ r.User ∧
      DemoVolume e1.vol ∧ node.inode = 3#32 ∧ node.read = some .ext2NodeRead := by
  obtain ⟨r, hm, hr⟩ := hd.user
  have hv' : DemoVolume m.ext2.vol := hd.ext2 ▸ hv
  have hpath : (∀ e', m.calling.fetch env m.cr3 e' demoPath = .ok 0x33#8) ∧
      ∀ e', m.calling.fetch env m.cr3 e' (demoPath + 1#32) = .ok 0#8 :=
    ⟨fun e' => (hlink e' _).trans (hd.path e').1, fun e' => (hlink e' _).trans (hd.path e').2⟩
  obtain ⟨e1, node, hopen, hv1, hino, hread⟩ :=
    hv'.open (env.link.behind m.kern) hpath.1 hpath.2 hd.nodes
  rw [← hdisk] at hopen
  have hfd : freeFd (m.kern.task 0).files = some 3 := by
    rw [hd.taskA]
    rfl
  have hcall : callOpen env m.cr3 m.calling (callRegs r sysOpen demoPath 0#32).frame =
      .ok ⟨⟨m.kern.opened node, e1, m.mem⟩, (callRegs r sysOpen demoPath 0#32).frame, 3#32,
        .opened 0 3 3#32⟩ := by
    have hcur : m.calling.kern.sched.cur = some 0 := hd.cur
    have hpool : (Function.update m.calling.kern.nodePool 0 node 0).inode = 3#32 := by
      rw [Function.update_self, hino]
    unfold callOpen
    have hopen' : vfsOpen env.disk (env.link.behind m.calling.kern) (m.calling.fetch env m.cr3)
      m.calling.kern.nodePool m.calling.ext2 (callRegs r sysOpen demoPath 0#32).frame.ebx =
      .ok (Function.update m.calling.kern.nodePool 0 node, e1, some 0) := hopen
    simp only [hopen', ok_bind, hcur]
    split
    next hnone => cases hfd.symm.trans hnone
    next fd hsome =>
      cases hfd.symm.trans hsome
      rw [hpool]
      rfl
  have hrun := run_call env hm hr (show (callRegs r sysOpen demoPath 0#32).User from hr)
    (syscallHandler_open rfl hcall)
  refine ⟨e1, node, _, hrun, ?_, hv1 ▸ hv', hino, hread⟩
  exact hr

end Run

/-- **`SYS_READ`** of a word from the file just opened, to where a word can be stored; the
offset is advanced from what it is after the store. -/
theorem read_word {env : Env} {m : Machine} {r : Regs} {buf : U32} {node : FsNode} {k : Kernel}
    {mem : Mem} (hdisk : env.disk = demoDisk) (hv : DemoVolume m.ext2.vol) (hm : m.mode = .user r)
    (hr : r.User) (hcur : m.kern.sched.cur = some 0)
    (hfd : (m.kern.task 0).files 3 = openedFd 0) (hnode : m.kern.nodePool 0 = node)
    (hino : node.inode = 3#32) (hread : node.read = some .ext2NodeRead)
    (hst : userStore32 env.link m.cr3 (m.kern, m.mem) buf 3#32 = .ok (k, mem)) :
    ∃ e1 r', Run (Step env) m [.quiet, .read 0 3 4#32 [3#8, 0#8, 0#8, 0#8], .quiet, .quiet]
      { m with
        kern := k.setTask 0 ((k.task 0).setFd 3 { (k.task 0).files 3 with
          offset := ((k.task 0).files 3).offset + 4#32 })
        ext2 := e1, mem := mem, mode := .user r' } ∧ r'.User := by
  obtain ⟨s1, s2, s3, h0, h1, h2, h3⟩ := userStore32_cases hst
  obtain ⟨e1, hvread⟩ := hv.read m.kern.nodePool (by rw [hnode, hino])
    (by rw [hnode, hread]) h0 h1 h2 h3
  let rd : Regs := { callRegs r sysRead 3#32 buf with edx := 4#32 }
  have hcall : callRead env m.cr3 m.calling rd.frame =
      .ok ⟨⟨k.setTask 0 ((k.task 0).setFd 3 { (k.task 0).files 3 with
          offset := ((k.task 0).files 3).offset + 4#32 }), e1, mem⟩, rd.frame, 4#32,
        .read 0 3 4#32 [3#8, 0#8, 0#8, 0#8]⟩ := by
    have harg : fdArg rd.frame.ebx = some 3 := rfl
    have hcur' : m.calling.kern.sched.cur = some 0 := hcur
    have hfd' : (m.calling.kern.task 0).files 3 = openedFd 0 := hfd
    have hused : ¬((openedFd 0).used = false) := by
      intro h
      cases h
    have hvread' : vfsRead env.disk (userStore env.link m.cr3) m.calling.kern.nodePool
        m.calling.ext2 (m.calling.kern, m.calling.mem) (openedFd 0).node (openedFd 0).offset
        rd.frame.edx rd.frame.ecx = .ok (e1, ⟨(k, mem), [3#8, 0#8, 0#8, 0#8]⟩) := by
      rw [hdisk]
      exact hvread
    unfold callRead
    simp only [harg, hcur', hfd', if_neg hused, hvread', ok_bind]
    rfl
  have hrun := run_call env hm hr (show rd.User from hr) (syscallHandler_read rfl hcall)
  refine ⟨e1, _, hrun, ?_⟩
  exact hr

/-- The end of the read: the offset moves on from where the store has left it. -/
def Kernel.readOn (k : Kernel) : Kernel :=
  k.setTask 0 ((k.task 0).setFd 3 { (k.task 0).files 3 with
    offset := ((k.task 0).files 3).offset + 4#32 })

theorem readOn_slot (k : Kernel) (fd : Fin 8) : (k.readOn.task 0).files fd =
    if fd = 3 then { (k.task 0).files 3 with offset := ((k.task 0).files 3).offset + 4#32 }
    else (k.task 0).files fd := by
  unfold Kernel.readOn
  rw [Kernel.setTask_task_self]
  exact Function.update_apply ..

theorem putOffset_slot (k : Kernel) (w : U32) (fd fd' : Fin 8) :
    (((Field.offset 0 fd).put k w).task 0).files fd' =
      if fd' = fd then { (k.task 0).files fd with offset := w } else (k.task 0).files fd' := by
  unfold Field.put
  simp only [Kernel.setTask_task_self]
  exact Function.update_apply ..

/-- The events of both calls, the newest first. -/
def openReadEvents : List Event :=
  [.quiet, .read 0 3 4#32 [3#8, 0#8, 0#8, 0#8], .quiet, .quiet,
    .quiet, .opened 0 3 3#32, .quiet, .quiet]

/-- A word goes to a field of task A on the wild machine. -/
theorem Demo.storeField {e : Ext2} {m : Machine} (hd : Demo e m) {X : Nat} {f : Field}
    (h4 : X % 4 = 0) (hlo : 0x110000 ≤ X) (hhi : X < 0x111000) (hf : fieldAt X = some f)
    (k : Kernel) : ∃ mem, userStore32 wildLink taskAPdAddr (k, m.mem) (BitVec.ofNat 32 X) 3#32 =
      .ok (f.put k 3#32, mem) := by
  have hX : (BitVec.ofNat 32 X).toNat = X := by
    rw [BitVec.toNat_ofNat]
    omega
  exact ⟨_, wild_store32 (hd.reaches h4 hlo (by omega))
    (by rw [hX]; unfold curTaskAddr; omega) (by rw [hX]; exact hf) 3#32⟩

/-- **Task A opens the file and reads a word to `buf`**, the store there doing `g`. -/
theorem Demo.openRead {e : Ext2} {m : Machine} (hd : Demo e m) (hv : DemoVolume e.vol) {env : Env}
    (hdisk : env.disk = demoDisk) (hlink : ∀ e' va, userLoad env.link m.cr3 m.kern m.mem e' va =
      userLoad wildLink m.cr3 m.kern m.mem e' va) {buf : U32} {g : Kernel → Kernel}
    (hst : ∀ k, ∃ mem, userStore32 env.link taskAPdAddr (k, m.mem) buf 3#32 = .ok (g k, mem)) :
    ∃ m' node, Run (Step env) m openReadEvents m' ∧ m'.kern = (g (m.kern.opened node)).readOn := by
  obtain ⟨e1, node, r, hrun, hr, hv1, hino, hread⟩ := hd.openFile hv hdisk hlink
  obtain ⟨mem, hmem⟩ := hst (m.kern.opened node)
  rw [← hd.cr3] at hmem
  obtain ⟨e2, r', hrun', _⟩ := read_word (m := { m with
    kern := m.kern.opened node, ext2 := e1, mode := .user r }) hdisk hv1 rfl hr hd.cur
    (opened_slot _ _ 3) (opened_node _ _) hino hread hmem
  exact ⟨_, node, hrun.append hrun', rfl⟩

/-- Task A has opened a file, and the books are right. -/
theorem descriptors_exact_open : ∃ env m0 m h, Started m0 ∧
    Run (Step (Env.guarded env)) m0 h m ∧ (0, 3) ∈ usedSlots m.kern ∧ Bookkeeping m.kern := by
  obtain ⟨e, _, hr, hs, hb, hi⟩ := demoDisk_boot
  obtain ⟨m0, hd⟩ := demo_exists e
  have hlink : ∀ e' va, userLoad (wildEnv demoDisk).guarded.link m0.cr3 m0.kern m0.mem e' va =
      userLoad wildLink m0.cr3 m0.kern m0.mem e' va := fun _ _ => rfl
  obtain ⟨e1, node, r, hrun, _⟩ := hd.openFile ⟨hr, hs, hb, hi⟩ rfl hlink
  refine ⟨wildEnv demoDisk, m0, _, _, hd.booted.started, hrun, ⟨?_, ?_⟩,
    (descriptors_exact hd.booted.started hrun).1⟩
  · show (0 : Fin 8).val < m0.kern.sched.ntasks
    rw [hd.ntasks]
    exact Nat.zero_lt_two
  · show (((m0.kern.opened node).task 0).files 3).used = true
    rw [opened_slot, if_pos rfl]
    rfl

/-- **A read into the table of descriptors**: task A reads three to the offset of a slot that
is not in use. -/
theorem descriptors_overwritten : ∃ env m0 m, Started m0 ∧ Run (Step env) m0 openReadEvents m ∧
    ¬Bookkeeping m.kern := by
  obtain ⟨e, _, hr, hs, hb, hi⟩ := demoDisk_boot
  obtain ⟨m0, hd⟩ := demo_exists e
  have hfield : fieldAt 0x110074 = some (.offset 0 4) := rfl
  have hlink : ∀ e' va, userLoad (wildEnv demoDisk).link m0.cr3 m0.kern m0.mem e' va =
      userLoad wildLink m0.cr3 m0.kern m0.mem e' va := fun _ _ => rfl
  obtain ⟨m, node, hrun, hk⟩ := hd.openRead ⟨hr, hs, hb, hi⟩ rfl hlink
    (hd.storeField rfl (by omega) (by omega) hfield)
  refine ⟨_, m0, m, hd.booted.started, hrun, fun hbooks => ?_⟩
  have hslot : (m.kern.task 0).files 4 = { closedFd with offset := 3#32 } := by
    rw [hk, readOn_slot, if_neg (by decide), putOffset_slot, if_pos rfl, opened_slot,
      if_neg (by decide), hd.taskA]
    rfl
  have hn : (0 : Fin 8).val < m.kern.sched.ntasks := by
    rw [hk]
    show 0 < m0.kern.sched.ntasks
    rw [hd.ntasks]
    exact Nat.zero_lt_two
  have hoff := (hbooks.unused 0 4 hn (by rw [hslot]; rfl)).2
  rw [hslot] at hoff
  cases hoff

end PepinOS
