import Mathlib.Data.Set.Card
import PepinOS.Process.Descriptors

/-!
# The table of open files

What a program sees of `SYS_OPEN`, `SYS_READ` and `SYS_CLOSE` needs no node pool: a table that
says, for each descriptor of each task, which inode is open and how far it has been read.
`FilesStep` is that table at work. The kernel's slots and pool entries refine it along
every run, and the pool shows through in one place, its size: `SYS_OPEN` fails when eight files
are open, whoever has opened them.
-/

namespace PepinOS

/-! ## The table -/

/-- For each task and descriptor that is open, the inode and the offset. -/
abbrev Files := Fin 8 × Fin 8 → Option (U32 × U32)

def openSlots (F : Files) : Set (Fin 8 × Fin 8) := {p | F p ≠ none}

/-- The descriptors `SYS_OPEN` of task `t` can give. -/
def freeSlots (F : Files) (t : Fin 8) : Set (Fin 8) := {fd | 3 ≤ fd.val ∧ F (t, fd) = none}

/-- The table from one event to the next. -/
inductive FilesStep : Files → Event → Files → Prop where
  | other {F : Files} {ev : Event} : ev.slot = none → FilesStep F ev F
  | opened {F : Files} {t fd : Fin 8} {ino : U32} : IsLeast (freeSlots F t) fd →
      (openSlots F).ncard < 8 → ino ≠ 0#32 →
      FilesStep F (.opened t fd ino) (Function.update F (t, fd) (some (ino, 0#32)))
  | closed {F : Files} {t fd : Fin 8} : F (t, fd) ≠ none →
      FilesStep F (.closed t fd) (Function.update F (t, fd) none)
  | read {F : Files} {t fd : Fin 8} {ino offset count : U32} {bytes : List U8} :
      F (t, fd) = some (ino, offset) →
      FilesStep F (.read t fd count bytes)
        (Function.update F (t, fd) (some (ino, offset + BitVec.ofNat 32 bytes.length)))

/-- The table the kernel holds. -/
def openFiles (k : Kernel) : Files := fun p =>
  (heldNode k p).map fun n => ((k.nodePool n).inode, ((k.task p.1).files p.2).offset)

/-- What `SYS_OPEN` of task `i` needs: an entry of the pool, a descriptor, the file. -/
def CanOpen (env : Env) (m : Machine) (i : Fin 8) (path : U32) : Prop :=
  (openSlots (openFiles m.kern)).ncard < 8 ∧ (freeSlots (openFiles m.kern) i).Nonempty ∧
    ∃ ino, ino ≠ 0#32 ∧
      Names env.disk (env.link.behind m.kern) (m.calling.fetch env m.cr3) m.ext2 path ino

/-! ## What `SYS_OPEN` answers -/

section Open

variable {env : Env} {cr3 : U32} {s : Calling} {f : Frame} {c : Returned}

theorem Names.unique {disk : Disk} {behind : Ext2 → Nat → U8} {fetch : Ext2 → U32 → Except Trap U8}
    {e : Ext2} {path ino ino' : U32} (h : Names disk behind fetch e path ino)
    (h' : Names disk behind fetch e path ino') : ino = ino' := by
  obtain ⟨p, e1, hp, hfind⟩ := h
  obtain ⟨p', e2, hp', hfind'⟩ := h'
  rw [hp] at hp'
  cases hp'
  rw [hfind] at hfind'
  cases hfind'
  rfl

/-- `vfs_open` gives no node if the pool is full or the path names nothing, -/
theorem vfsOpen_none {disk : Disk} {behind : Ext2 → Nat → U8}
    {fetch : Ext2 → U32 → Except Trap U8} {pool pool' : NodePool} {e e' : Ext2} {path : U32}
    (h : vfsOpen disk behind fetch pool e path = .ok (pool', e', none)) :
    freeNode pool = none ∨ Names disk behind fetch e path 0#32 := by
  unfold vfsOpen at h
  split at h
  next hfree => exact .inl hfree
  next i hi =>
    obtain ⟨c, hc, h⟩ := bind_ok h
    obtain ⟨⟨e1, ino⟩, hfind, h⟩ := bind_ok h
    simp only at h
    split at h
    next hino =>
      subst hino
      refine .inr ⟨_, e1, ?_, hfind⟩
      unfold pathName
      rw [hc]
      rfl
    next =>
      obtain ⟨_, _, h⟩ := bind_ok h
      obtain ⟨_, _, h⟩ := bind_ok h
      cases h

/-- and else an entry on an inode. -/
theorem vfsOpen_inode {disk : Disk} {behind : Ext2 → Nat → U8}
    {fetch : Ext2 → U32 → Except Trap U8} {pool pool' : NodePool} {e e' : Ext2} {path : U32}
    {n : Fin 8} (h : vfsOpen disk behind fetch pool e path = .ok (pool', e', some n)) :
    (pool' n).inode ≠ 0#32 := by
  unfold vfsOpen at h
  split at h
  next => cases h
  next i hi =>
    obtain ⟨c, hc, h⟩ := bind_ok h
    obtain ⟨⟨e1, ino⟩, hfind, h⟩ := bind_ok h
    simp only at h
    split at h
    next => cases h
    next hino =>
      obtain ⟨_, _, h⟩ := bind_ok h
      obtain ⟨_, _, h⟩ := bind_ok h
      cases h
      rw [Function.update_self]
      exact hino

/-- The descriptor is the lowest from 3 on. -/
theorem freeFd_eq_some {files : Fin 8 → Fd} {fd : Fin 8} :
    freeFd files = some fd ↔ IsLeast {fd | 3 ≤ fd.val ∧ (files fd).used = false} fd := by
  unfold freeFd
  have hsorted : ((List.finRange 8).drop 3).Pairwise (· < ·) :=
    List.Pairwise.drop (List.pairwise_lt_finRange 8)
  have hset : {b : Fin 8 | b ∈ (List.finRange 8).drop 3 ∧ (!(files b).used) = true} =
      {fd | 3 ≤ fd.val ∧ (files fd).used = false} := by
    ext b
    have hmem : b ∈ (List.finRange 8).drop 3 ↔ 3 ≤ b.val := by
      revert b
      decide
    exact and_congr hmem (by simp)
  rw [find?_eq_some_iff_isLeast hsorted, hset]

theorem freeFd_eq_none {files : Fin 8 → Fd} :
    freeFd files = none ↔ ∀ fd : Fin 8, 3 ≤ fd.val → (files fd).used = true := by
  unfold freeFd
  rw [List.find?_eq_none]
  have hmem : ∀ b : Fin 8, b ∈ (List.finRange 8).drop 3 ↔ 3 ≤ b.val := by decide
  simp [hmem]

/-- The two ends of `SYS_OPEN`. -/
theorem callOpen_cases {i : Fin 8} (hcur : s.kern.sched.cur = some i)
    (h : callOpen env cr3 s f = .ok c) :
    (c.res = minusOne ∧ c.ev = .quiet ∧
      (freeNode s.kern.nodePool = none ∨ freeFd (s.kern.task i).files = none ∨
        Names env.disk (env.link.behind s.kern) (s.fetch env cr3) s.ext2 f.ebx 0#32)) ∨
    ∃ n fd ino, (s.kern.nodePool n).used = false ∧ freeFd (s.kern.task i).files = some fd ∧
      ino ≠ 0#32 ∧ Names env.disk (env.link.behind s.kern) (s.fetch env cr3) s.ext2 f.ebx ino ∧
      c.res = BitVec.ofNat 32 fd.val ∧ c.ev = .opened i fd ino := by
  obtain ⟨⟨pool, ext2, node⟩, hopen, h⟩ := bind_ok h
  obtain ⟨_, hcase⟩ := vfsOpen_cases hopen
  rcases hcase with ⟨rfl, rfl⟩ | ⟨n, fsn, rfl, hfree, rfl, _, _, hnames⟩
  · cases h
    exact .inl ⟨rfl, rfl, (vfsOpen_none hopen).imp_right .inr⟩
  · have hino := vfsOpen_inode hopen
    rw [Function.update_self] at hino
    simp only [hcur] at h
    split at h
    next hfd =>
      cases h
      exact .inl ⟨rfl, rfl, .inr (.inl hfd)⟩
    next fd hfd =>
      cases h
      refine .inr ⟨n, fd, fsn.inode, hfree, hfd, hino, hnames, rfl, ?_⟩
      show Event.opened i fd (Function.update s.kern.nodePool n fsn n).inode = _
      rw [Function.update_self]

/-- No other call opens. -/
theorem syscallHandler_opened {i fd : Fin 8} {ino : U32}
    (h : syscallHandler env cr3 s f = .ok (.returns c)) (hev : c.ev = .opened i fd ino) :
    callOpen env cr3 s f = .ok c := by
  unfold syscallHandler at h
  rcases ite_cases h with ⟨_, h⟩ | ⟨_, h⟩
  · obtain ⟨text, _, h⟩ := bind_ok h
    cases text <;> cases h
    cases hev
  rcases ite_cases h with ⟨_, h⟩ | ⟨_, h⟩
  · cases h
  rcases ite_cases h with ⟨_, h⟩ | ⟨_, h⟩
  · cases h
    cases hev
  rcases ite_cases h with ⟨_, h⟩ | ⟨_, h⟩
  · obtain ⟨c', hc, h⟩ := bind_ok h
    cases h
    exact hc
  rcases ite_cases h with ⟨_, h⟩ | ⟨_, h⟩
  · obtain ⟨c', hc, h⟩ := bind_ok h
    cases h
    unfold callClose at hc
    split at hc
    next =>
      cases hc
      cases hev
    next =>
      split at hc
      next => cases hc
      next =>
        simp only at hc
        split at hc <;> cases hc <;> cases hev
  rcases ite_cases h with ⟨_, h⟩ | ⟨_, h⟩
  · obtain ⟨c', hc, h⟩ := bind_ok h
    cases h
    unfold callRead at hc
    split at hc
    next =>
      cases hc
      cases hev
    next =>
      split at hc
      next => cases hc
      next =>
        simp only at hc
        split at hc
        next =>
          cases hc
          cases hev
        next =>
          obtain ⟨_, _, hc⟩ := bind_ok hc
          cases hc
          cases hev
  rcases ite_cases h with ⟨_, h⟩ | ⟨_, h⟩
  · cases h
    cases hev
  rcases ite_cases h with ⟨_, h⟩ | ⟨_, h⟩
  · obtain ⟨c', hc, h⟩ := bind_ok h
    cases h
    obtain ⟨_, _, hc⟩ := bind_ok hc
    cases hc
    cases hev
  rcases ite_cases h with ⟨_, h⟩ | ⟨_, h⟩
  · cases h
    unfold callSigaction at hev
    split at hev <;> cases hev
  rcases ite_cases h with ⟨_, h⟩ | ⟨_, h⟩
  · cases h
    unfold callKill at hev
    split at hev <;> cases hev
  rcases ite_cases h with ⟨_, h⟩ | ⟨_, h⟩
  · cases h
    unfold callSigreturn at hev
    split at hev
    next => cases hev
    next =>
      simp only at hev
      split at hev <;> cases hev
  · cases h
    cases hev

end Open

/-! ## The kernel's table -/

section Table

variable {env : Env} {m m' : Machine} {ev : Event} {t fd : Fin 8}

theorem openFiles_eq_none (hinv : FileInv m.kern) (ht : t.val < m.kern.sched.ntasks) :
    openFiles m.kern (t, fd) = none ↔ ((m.kern.task t).files fd).used = false := by
  unfold openFiles
  rw [Option.map_eq_none_iff]
  constructor
  · intro hnone
    cases hu : ((m.kern.task t).files fd).used with
    | false => rfl
    | true =>
      obtain ⟨n, _, hheld, _⟩ := hinv.node ht hu
      rw [hheld] at hnone
      cases hnone
  · exact heldNode_unused

/-- As many files are open as entries of the pool are in use. -/
theorem openSlots_ncard (hinv : FileInv m.kern) :
    (openSlots (openFiles m.kern)).ncard = (usedNodes m.kern).ncard := by
  have hslots : openSlots (openFiles m.kern) = {p | heldNode m.kern p ≠ none} := by
    ext p
    show openFiles m.kern p ≠ none ↔ heldNode m.kern p ≠ none
    unfold openFiles
    rw [ne_eq, Option.map_eq_none_iff]
  rw [hslots, ← Set.ncard_image_of_injective (usedNodes m.kern) (Option.some_injective _)]
  exact hinv.owned.bijOn.ncard_eq

/-- The pool is full when eight files are open. -/
theorem openSlots_lt_iff (hinv : FileInv m.kern) :
    (openSlots (openFiles m.kern)).ncard < 8 ↔ ∃ n, (m.kern.nodePool n).used = false := by
  rw [openSlots_ncard hinv]
  have huniv : (Set.univ : Set (Fin 8)).ncard = 8 := by
    rw [Set.ncard_univ, Nat.card_eq_fintype_card, Fintype.card_fin]
  constructor
  · intro hlt
    by_contra hall
    have hfull : usedNodes m.kern = Set.univ := by
      ext n
      refine iff_of_true ?_ trivial
      cases hu : (m.kern.nodePool n).used with
      | true => exact hu
      | false => exact absurd ⟨n, hu⟩ hall
    rw [hfull, huniv] at hlt
    exact Nat.lt_irrefl 8 hlt
  · rintro ⟨n, hn⟩
    refine (Set.ncard_lt_ncard ?_ (Set.toFinite _)).trans_eq huniv
    refine Set.ssubset_univ_iff.mpr fun hfull => ?_
    have hu : n ∈ usedNodes m.kern := hfull ▸ Set.mem_univ n
    rw [show (m.kern.nodePool n).used = true from hu] at hn
    cases hn

theorem freeNode_eq_none {pool : NodePool} :
    freeNode pool = none ↔ ∀ n, (pool n).used = true := by
  unfold freeNode
  rw [List.find?_eq_none]
  simp [List.mem_finRange]

/-- What a step is not about stays in the table. -/
theorem openFiles_other (hd : FilesDone env m ev m') (hinv : FileInv m.kern)
    (hsched : SchedInv m.kern.sched) (hn : m'.kern.sched.ntasks = m.kern.sched.ntasks)
    {p : Fin 8 × Fin 8} (hev : ev.slot ≠ some p) :
    openFiles m'.kern p = openFiles m.kern p := by
  obtain ⟨t, fd⟩ := p
  obtain ⟨hslot, hnode⟩ := hd.other hinv hsched hev
  have hheld : heldNode m'.kern (t, fd) = heldNode m.kern (t, fd) := by
    unfold heldNode
    rw [hslot, hn]
  unfold openFiles
  rw [hheld, hslot]
  cases h : heldNode m.kern (t, fd) with
  | none => rfl
  | some q => rw [Option.map_some, Option.map_some, hnode q h]

/-- What the table has for a slot in use. -/
theorem openFiles_slot {k : Kernel} {i n : Fin 8} {d : Fd} (hi : i.val < k.sched.ntasks)
    (hslot : (k.task i).files fd = d) (hu : d.used = true) (hnode : d.node = some n) :
    openFiles k (i, fd) = some ((k.nodePool n).inode, d.offset) := by
  unfold openFiles
  rw [heldNode_used hi (by rw [hslot]; exact hu), hslot, hnode]
  rfl

/-- A call that opens is `SYS_OPEN`. -/
theorem Step.opened {i : Fin 8} {ino : U32} (h : Step env.guarded m (.opened i fd ino) m') :
    ∃ r c, m.mode = .entry r ∧ callOpen env.guarded m.cr3 m.calling r.frame = .ok c ∧
      c.ev = .opened i fd ino := by
  generalize hev : Event.opened i fd ino = ev at h
  have hentry : ∃ r, m.mode = .entry r := by
    have hfiles := h.done.files
    rw [← hev] at hfiles
    cases hfiles with
    | same hslot => cases hslot
    | opened hm => exact ⟨_, hm⟩
  obtain ⟨r, hm⟩ := hentry
  rcases h.of_entry hm with
    ⟨he, _⟩ | ⟨sc, he, _⟩ | ⟨c, hc, he, _⟩ | ⟨_, _, he, _⟩ | ⟨_, he, _⟩ | ⟨_, _, _, he, _⟩
  · rw [he] at hev
    cases hev
  · have hslot := keyEvent_slot m.kern sc
    rw [← he, ← hev] at hslot
    cases hslot
  · exact ⟨r, c, hm, syscallHandler_opened hc (hev.trans he).symm, he.symm⟩
  · rw [he] at hev
    cases hev
  · rw [he] at hev
    cases hev
  · rw [he] at hev
    cases hev

/-- A call that has returned. -/
theorem Step.returned {r r' : Regs} {f : Frame} {res : U32} (h : Step env m ev m')
    (hm : m.mode = .entry r) (hm' : m'.mode = .leave r' f res) :
    ∃ c, syscallHandler env m.cr3 m.calling r.frame = .ok (.returns c) ∧ ev = c.ev ∧
      res = c.res := by
  rcases h.of_entry hm with
    ⟨_, rfl⟩ | ⟨_, _, rfl⟩ | ⟨c, hc, hev, rfl⟩ | ⟨_, _, _, rfl⟩ | ⟨_, _, rfl⟩ | ⟨_, _, _, _, rfl⟩
  · rw [hm] at hm'
    cases hm'
  · rw [show m.mode = _ from hm'] at hm
    cases hm
  · cases hm'
    exact ⟨c, hc, hev, rfl⟩
  · cases hm'
  · cases hm'
  · cases hm'

/-- The free descriptors of the table are those `SYS_OPEN` looks for. -/
theorem freeSlots_eq (hinv : FileInv m.kern) (ht : t.val < m.kern.sched.ntasks) :
    freeSlots (openFiles m.kern) t = {fd | 3 ≤ fd.val ∧ ((m.kern.task t).files fd).used = false} := by
  ext fd
  exact and_congr_right fun _ => openFiles_eq_none hinv ht

/-- **One step of the kernel is one of the table.** -/
theorem Step.filesStep (h : Step env.guarded m ev m') (hinv : FileInv m.kern)
    (hsched : SchedInv m.kern.sched) : FilesStep (openFiles m.kern) ev (openFiles m'.kern) := by
  obtain ⟨hsched', hn⟩ := h.done.schedInv hsched
  have hinv' := h.done.files.inv hinv hsched hn
  have hother : ∀ p, ev.slot ≠ some p → openFiles m'.kern p = openFiles m.kern p :=
    fun p hev => openFiles_other h.done.files hinv hsched hn hev
  have hupdate : ∀ {p v}, ev.slot = some p → openFiles m'.kern p = v →
      openFiles m'.kern = Function.update (openFiles m.kern) p v := by
    intro p v hev hv
    exact Function.eq_update_iff.mpr
      ⟨hv, fun q hq => hother q fun e => hq (Option.some.inj (hev.symm.trans e)).symm⟩
  have hstep := h
  cases h.done.files with
  | same hev _ _ =>
    have hsame : openFiles m'.kern = openFiles m.kern :=
      funext fun p => hother p (by rw [hev]; nofun)
    rw [hsame]
    exact .other hev
  | @opened _ r i fd n node _ hcur hfree hu _ h3 hfd hs hp _ =>
    have hi := hsched.cur_lt i hcur
    obtain ⟨r', c, hm, hcall, hc⟩ := hstep.opened
    rcases callOpen_cases hcur hcall with ⟨_, hquiet, _⟩ | ⟨n', fd', ino, hn', hfd', hino, _, _, hev⟩
    · rw [hquiet] at hc
      cases hc
    · rw [hc] at hev
      cases hev
      have hslot : (m'.kern.task i).files fd = openedFd n := by
        rw [setFd_slot hs, if_pos ⟨rfl, rfl⟩]
      have hentry := openFiles_slot (d := openedFd n) (n := n) (by rw [hn]; exact hi) hslot rfl rfl
      rw [hp, Function.update_self] at hentry
      rw [hupdate rfl hentry]
      refine .opened ?_ ((openSlots_lt_iff hinv).mpr ⟨n', hn'⟩) hino
      rw [freeSlots_eq hinv hi]
      exact freeFd_eq_some.mp hfd'
  | @closed _ i fd hcur h3 hu hs _ =>
    have hi := hsched.cur_lt i hcur
    have hslot : (m'.kern.task i).files fd = closedFd := by
      rw [setFd_slot hs, if_pos ⟨rfl, rfl⟩]
    have hentry : openFiles m'.kern (i, fd) = none := by
      refine (openFiles_eq_none hinv' (by rw [hn]; exact hi)).mpr ?_
      rw [hslot]
      rfl
    rw [hupdate rfl hentry]
    refine .closed fun hnone => ?_
    rw [openFiles_eq_none hinv hi, hu] at hnone
    cases hnone
  | @read _ r i fd d c _ hcur h3 hd hu _ _ hs hp _ =>
    have hi := hsched.cur_lt i hcur
    have hu' : ((m.kern.task i).files fd).used = true := by rw [hd]; exact hu
    obtain ⟨n, hnode, _⟩ := hinv.node hi hu'
    rw [hd] at hnode
    have hbefore := openFiles_slot hi hd hu hnode
    have hslot : (m'.kern.task i).files fd =
        { d with offset := d.offset + BitVec.ofNat 32 c.bytes.length } := by
      rw [setFd_slot hs, if_pos ⟨rfl, rfl⟩]
    have hentry := openFiles_slot (by rw [hn]; exact hi) hslot hu hnode
    rw [hp] at hentry
    rw [hupdate rfl hentry]
    exact .read hbefore

/-- `SYS_OPEN` opens exactly when it can. -/
theorem callOpen_iff {i : Fin 8} {r : Regs} {c : Returned} (hinv : FileInv m.kern)
    (hsched : SchedInv m.kern.sched) (hcur : m.kern.sched.cur = some i)
    (h : callOpen env m.cr3 m.calling r.frame = .ok c) :
    (CanOpen env m i r.ebx ∧ ∃ fd ino, c.ev = .opened i fd ino ∧ c.res = BitVec.ofNat 32 fd.val ∧
      Names env.disk (env.link.behind m.kern) (m.calling.fetch env m.cr3) m.ext2 r.ebx ino) ∨
    (¬CanOpen env m i r.ebx ∧ c.ev = .quiet ∧ c.res = minusOne) := by
  have hi := hsched.cur_lt i hcur
  rcases callOpen_cases hcur h with ⟨hres, hev, hwhy⟩ |
    ⟨n, fd, ino, hn, hfd, hino, hnames, hres, hev⟩
  · refine .inr ⟨?_, hev, hres⟩
    rintro ⟨hpool, hslot, ino, hino, hnames⟩
    rcases hwhy with hfull | hnofd | h0
    · obtain ⟨n, hn⟩ := (openSlots_lt_iff hinv).mp hpool
      exact Bool.false_ne_true (hn.symm.trans (freeNode_eq_none.mp hfull n))
    · obtain ⟨fd, h3, hfd⟩ := hslot
      rw [openFiles_eq_none hinv hi] at hfd
      exact Bool.false_ne_true (hfd.symm.trans (freeFd_eq_none.mp hnofd fd h3))
    · exact hino (hnames.unique h0)
  · refine .inl ⟨⟨(openSlots_lt_iff hinv).mpr ⟨n, hn⟩, ⟨fd, ?_⟩, ino, hino, hnames⟩, fd, ino, hev,
      hres, hnames⟩
    rw [freeSlots_eq hinv hi]
    exact (freeFd_eq_some.mp hfd).1

end Table

/-- **Open files, as the programs see them**, on every run in which no store through a user pointer
lands in the kernel's own memory. Slots and pool together are a table of what is open, started
empty and changed by `SYS_OPEN`, `SYS_CLOSE` and `SYS_READ` as `FilesStep` says: the lowest free
descriptor of the task, at offset 0; that descriptor alone, closed or moved on. A `SYS_OPEN` that
returns has opened the file its path names if fewer than eight files are open in all tasks
together, the task has a descriptor left and the path names a file, and else it returns -1. -/
theorem files_refined {env : Env} {m0 m : Machine} {h : List Event} (hstart : Started m0)
    (hrun : Run (Step env.guarded) m0 h m) :
    Run FilesStep (fun _ => none) h (openFiles m.kern) ∧
    ∀ ev m' r r' f res i, m.mode = .entry r → r.eax = sysOpen → m.kern.sched.cur = some i →
      Step env.guarded m ev m' → m'.mode = .leave r' f res →
      (CanOpen env.guarded m i r.ebx ∧
        ∃ fd ino, ev = .opened i fd ino ∧ res = BitVec.ofNat 32 fd.val ∧
          Names env.disk (env.guarded.link.behind m.kern) (m.calling.fetch env.guarded m.cr3) m.ext2
            r.ebx ino) ∨
      (¬CanOpen env.guarded m i r.ebx ∧ ev = .quiet ∧ res = minusOne) := by
  obtain ⟨hinv, hsched⟩ := hstart.run_fileInv hrun
  refine ⟨?_, fun ev m' r r' f res i hm hnum hcur hstep hm' => ?_⟩
  · have hempty : openFiles m0.kern = fun _ => none := by
      funext p
      refine Option.map_eq_none_iff.mpr ?_
      cases hp : heldNode m0.kern p with
      | none => rfl
      | some n =>
        have hused := (hstart.fileInv.owned.held n).mpr ⟨p, hp⟩
        exact absurd ((hstart.nodes n).symm.trans hused) Bool.false_ne_true
    rw [← hempty]
    refine (hrun.inv (fun h m => (FileInv m.kern ∧ SchedInv m.kern.sched) ∧
      Run FilesStep (openFiles m0.kern) h (openFiles m.kern))
      ⟨⟨hstart.fileInv, hstart.tasks.inv⟩, .start⟩ ?_).2
    rintro h m ev m' ⟨⟨hf, hs⟩, hfiles⟩ hstep
    obtain ⟨hs', hn⟩ := hstep.done.schedInv hs
    exact ⟨⟨hstep.done.files.inv hf hs hn, hs'⟩, hfiles.step (hstep.filesStep hf hs)⟩
  · obtain ⟨c, hcall, hev, rfl⟩ := hstep.returned hm hm'
    have hopen : callOpen env.guarded m.cr3 m.calling r.frame = .ok c := by
      unfold syscallHandler at hcall
      rw [show r.frame.eax = sysOpen from hnum] at hcall
      obtain ⟨c', hc', h⟩ := bind_ok hcall
      cases h
      exact hc'
    rcases callOpen_iff hinv hsched hcur hopen with
      ⟨hcan, fd, ino, hopened, hres, hnames⟩ | ⟨hcan, hquiet, hres⟩
    · exact .inl ⟨hcan, fd, ino, hev.trans hopened, hres, hnames⟩
    · exact .inr ⟨hcan, hev.trans hquiet, hres⟩

/-- Task A has opened a file: it is in the table at descriptor 3 of task A. -/
theorem files_refined_open : ∃ env m0 m h, Started m0 ∧ Run (Step (Env.guarded env)) m0 h m ∧
    Run FilesStep (fun _ => none) h (openFiles m.kern) ∧
    openFiles m.kern (0, 3) = some (3#32, 0#32) := by
  obtain ⟨e, _, hr, hs, hb, hi⟩ := demoDisk_boot
  obtain ⟨m0, hd⟩ := demo_exists e
  have hlink : ∀ e' va, userLoad (wildEnv demoDisk).guarded.link m0.cr3 m0.kern m0.mem e' va =
      userLoad wildLink m0.cr3 m0.kern m0.mem e' va := fun _ _ => rfl
  obtain ⟨e1, node, r, hrun, _, _, hino, _⟩ := hd.openFile ⟨hr, hs, hb, hi⟩ rfl hlink
  refine ⟨wildEnv demoDisk, m0, _, _, hd.booted.started, hrun,
    (files_refined hd.booted.started hrun).1, ?_⟩
  have hn : (0 : Fin 8).val < (m0.kern.opened node).sched.ntasks := by
    show 0 < m0.kern.sched.ntasks
    rw [hd.ntasks]
    exact Nat.zero_lt_two
  have hentry := openFiles_slot hn ((opened_slot m0.kern node 3).trans (if_pos rfl)) rfl rfl
  rw [opened_node, hino] at hentry
  exact hentry

end PepinOS
