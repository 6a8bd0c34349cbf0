import PepinOS.Fs.Partition
import PepinOS.Process.Machine

/-!
# The machine on a partitioned disk

Nothing in the system but `part_lba` itself tells a partition from a disk of its own. The
variables of the driver on the whole disk are those on the partition, shifted; a system call
gives the same results and events (`syscallHandler_shift`), so each step of the machine on the
one is a step on the other, and their runs are the same.

A task that reads the kernel's memory could find `part_lba` there, and so could the walk that
leaves `blk_b`: `Blind` leaves that out.
-/

namespace PepinOS

/-- Nothing reads `part_lba` but the driver. -/
structure Env.Blind (env : Env) (p : U32) : Prop where
  peek : ∀ k e, env.link.peek k (e.shift p) = env.link.peek k e
  behind : ∀ k e, env.link.behind k (e.shift p) = env.link.behind k e
  clobber : ∀ k e, env.clobber k (e.shift p) = env.clobber k e

/-- The machine with the partition for a disk. -/
def Env.onPartition (env : Env) (p : U32) : Env := { env with disk := fromSector env.disk p }

def Calling.shift (p : U32) (s : Calling) : Calling := { s with ext2 := s.ext2.shift p }

def Returned.shift (p : U32) (c : Returned) : Returned := { c with state := c.state.shift p }

def Handled.shift (p : U32) : Handled → Handled
  | .returns c => .returns (c.shift p)
  | .spins s => .spins (s.shift p)

def Machine.shift (p : U32) (m : Machine) : Machine := { m with ext2 := m.ext2.shift p }

/-! ## The VFS -/

theorem vfsOpen_shift {disk : Disk} {p : U32} {behind : Ext2 → Nat → U8}
    {fetch fetch' : Ext2 → U32 → Except Trap U8} (hbehind : ∀ e, behind (e.shift p) = behind e)
    (hfetch : ∀ e, fetch' (e.shift p) = fetch e) (pool : NodePool) (e : Ext2) (path : U32) :
    vfsOpen disk behind fetch' pool (e.shift p) path =
      (fun r => (r.1, shifted p r.2)) <$> vfsOpen (fromSector disk p) behind fetch pool e path := by
  unfold vfsOpen
  cases freeNode pool with
  | none => rfl
  | some i =>
    simp only [hfetch]
    refine bind_image_same fun c => ?_
    refine bind_image (ext2Find_shift hbehind hfetch e ext2RootInode _) ?_
    rintro ⟨e1, ino⟩
    refine ite_image (fun _ => rfl) fun _ => bind_image (ext2InodeSize_shift disk p e1 ino) ?_
    rintro ⟨e2, length⟩
    simp only [shifted, hfetch]
    exact bind_image_same fun name => rfl

theorem vfsRead_shift {M : Type} (disk : Disk) (p : U32) (store : M → U32 → U8 → Except Trap M)
    (pool : NodePool) (e : Ext2) (m : M) (node : Option (Fin 8)) (offset size buf : U32) :
    vfsRead disk store pool (e.shift p) m node offset size buf =
      shifted p <$> vfsRead (fromSector disk p) store pool e m node offset size buf := by
  cases node with
  | none => rfl
  | some i =>
    cases hread : (pool i).read with
    | none =>
      simp only [vfsRead, hread]
      rfl
    | some _ =>
      simp only [vfsRead, hread]
      exact ext2Pread_shift ..

/-! ## The calls -/

section Calls

variable {env : Env} {p : U32} (hb : env.Blind p) (cr3 : U32) (s : Calling) (f : Frame)

include hb

theorem fetch_shift (e : Ext2) :
    (s.shift p).fetch env cr3 (e.shift p) = s.fetch (env.onPartition p) cr3 e := by
  funext va
  show userLoad env.link cr3 s.kern s.mem (e.shift p) va = userLoad env.link cr3 s.kern s.mem e va
  unfold userLoad
  rw [hb.peek]

theorem callPrint_shift : callPrint env cr3 (s.shift p) f =
    Handled.shift p <$> callPrint (env.onPartition p) cr3 s f := by
  have hfetch : (s.shift p).fetch env cr3 (s.shift p).ext2 =
      s.fetch (env.onPartition p) cr3 s.ext2 :=
    fetch_shift hb cr3 s s.ext2
  unfold callPrint
  rw [hfetch]
  refine bind_image_same fun text => ?_
  cases text <;> rfl

theorem callLs_shift : callLs env (s.shift p) f =
    Returned.shift p <$> callLs (env.onPartition p) s f :=
  bind_image (ext2Ls_shift (hb.behind s.kern) s.ext2 ext2RootInode) fun _ => rfl

theorem callOpen_shift : callOpen env cr3 (s.shift p) f =
    Returned.shift p <$> callOpen (env.onPartition p) cr3 s f := by
  refine bind_image (vfsOpen_shift (hb.behind s.kern) (fetch_shift hb cr3 s) s.kern.nodePool s.ext2
    f.ebx) ?_
  rintro ⟨pool, e, node⟩
  cases node with
  | none => rfl
  | some n =>
    -- from here on only the task's own table is looked at
    simp only [Calling.shift]
    cases s.kern.sched.cur with
    | none => rfl
    | some i =>
      have hfiles : ({ s.kern with nodePool := pool } : Kernel).task i = s.kern.task i := rfl
      simp only [hfiles]
      cases freeFd (s.kern.task i).files <;> rfl

omit hb in
theorem callRead_shift : callRead env cr3 (s.shift p) f =
    Returned.shift p <$> callRead (env.onPartition p) cr3 s f := by
  unfold callRead
  cases fdArg f.ebx with
  | none => rfl
  | some fd =>
    simp only [Calling.shift]
    cases s.kern.sched.cur with
    | none => rfl
    | some i =>
      exact ite_image (fun _ => rfl) fun _ => bind_image (vfsRead_shift ..) fun _ => rfl

omit hb in
theorem callClose_shift : callClose (s.shift p) f = Returned.shift p <$> callClose s f := by
  unfold callClose
  cases fdArg f.ebx with
  | none => rfl
  | some fd =>
    simp only [Calling.shift]
    cases s.kern.sched.cur with
    | none => rfl
    | some i => exact ite_image (fun _ => rfl) fun _ => rfl

omit hb in
theorem callSigaction_shift : callSigaction (s.shift p) f = (callSigaction s f).shift p := by
  simp only [callSigaction, Calling.shift]
  cases s.kern.sched.cur <;> cases sigArg f.ebx <;> rfl

omit hb in
theorem callKill_shift : callKill (s.shift p) f = (callKill s f).shift p := by
  simp only [callKill, Calling.shift]
  cases s.kern.sched.cur <;> cases sigArg f.ebx <;> rfl

omit hb in
theorem callSigreturn_shift : callSigreturn (s.shift p) f = (callSigreturn s f).shift p := by
  simp only [callSigreturn, Calling.shift]
  cases s.kern.sched.cur with
  | none => rfl
  | some i =>
    simp only
    rw [apply_ite (Returned.shift p)]
    rfl

theorem syscallHandler_shift : syscallHandler env cr3 (s.shift p) f =
    Handled.shift p <$> syscallHandler (env.onPartition p) cr3 s f := by
  unfold syscallHandler
  refine ite_image (fun _ => callPrint_shift hb cr3 s f) fun _ => ?_
  refine ite_image (fun _ => rfl) fun _ => ?_
  refine ite_image (fun _ => rfl) fun _ => ?_
  refine ite_image (fun _ => bind_image (callOpen_shift hb cr3 s f) fun _ => rfl) fun _ => ?_
  refine ite_image (fun _ => bind_image (callClose_shift s f) fun _ => rfl) fun _ => ?_
  refine ite_image (fun _ => bind_image (callRead_shift cr3 s f) fun _ => rfl) fun _ => ?_
  refine ite_image (fun _ => rfl) fun _ => ?_
  refine ite_image (fun _ => bind_image (callLs_shift hb s f) fun _ => rfl) fun _ => ?_
  rw [callSigaction_shift, callKill_shift, callSigreturn_shift]
  refine ite_image (fun _ => rfl) fun _ => ite_image (fun _ => rfl) fun _ => ?_
  exact ite_image (fun _ => rfl) fun _ => rfl

end Calls

/-! ## The machine -/

section Machine

variable {env : Env} {p : U32} (hb : env.Blind p)

include hb

/-- A call that comes to its end on the partition does so on the whole disk. -/
theorem syscallHandler_onto {cr3 : U32} {s : Calling} {f : Frame} {h : Handled}
    (hcall : syscallHandler (env.onPartition p) cr3 s f = .ok h) :
    syscallHandler env cr3 (s.shift p) f = .ok (h.shift p) := by
  rw [syscallHandler_shift hb, hcall]
  rfl

/-- And the other way round. -/
theorem syscallHandler_from {cr3 : U32} {s : Calling} {f : Frame} {h : Handled}
    (hcall : syscallHandler env cr3 (s.shift p) f = .ok h) :
    ∃ h', h = h'.shift p ∧ syscallHandler (env.onPartition p) cr3 s f = .ok h' := by
  rw [syscallHandler_shift hb] at hcall
  cases hp : syscallHandler (env.onPartition p) cr3 s f with
  | error => rw [hp] at hcall; cases hcall
  | ok h' =>
    rw [hp] at hcall
    cases hcall
    exact ⟨h', rfl, rfl⟩

theorem syscallHandler_faults {cr3 : U32} {s : Calling} {f : Frame} :
    syscallHandler env cr3 (s.shift p) f = .error .exception ↔
      syscallHandler (env.onPartition p) cr3 s f = .error .exception := by
  rw [syscallHandler_shift hb]
  cases syscallHandler (env.onPartition p) cr3 s f with
  | error t => exact ⟨fun h => h, fun h => h⟩
  | ok h => exact ⟨nofun, nofun⟩

theorem clobber_shift (m : Machine) (f : Frame) :
    env.clobber (m.shift p).kern (m.shift p).ext2 (m.shift p).mem f =
      (env.onPartition p).clobber m.kern m.ext2 m.mem f :=
  congrFun (congrFun (hb.clobber m.kern m.ext2) m.mem) f

theorem step_shift {m m' : Machine} {ev : Event} (h : Step (env.onPartition p) m ev m') :
    Step env (m.shift p) ev (m'.shift p) := by
  cases h with
  | compute hm hr hr' => exact .compute hm hr hr'
  | write hm hr hw hs => exact .write hm hr hw hs
  | fault hm hr => exact .fault hm hr
  | tick hm hr hs => exact .tick hm hr hs
  | tickFault hm hr hs => exact .tickFault hm hr hs
  | tickKernel hm h0 hs => exact .tickKernel hm h0 hs
  | key hm => exact .key hm
  | int30 hm hr => exact .int30 hm hr
  | @call r c hm hc =>
    -- what the call leaves in `ecx` and `edx` is free, but not for `part_lba` to decide
    have hcall := syscallHandler_onto hb hc
    have hstep := @Step.call env (m.shift p) r (c.shift p) hm hcall
    rw [clobber_shift hb] at hstep
    exact hstep
  | @callSpins r s hm hc =>
    have hcall := syscallHandler_onto hb hc
    exact @Step.callSpins env (m.shift p) r (s.shift p) hm hcall
  | @callFault r hm hc =>
    have hcall := (syscallHandler_faults hb).mpr hc
    exact @Step.callFault env (m.shift p) r hm hcall
  | killLoad hm hnum hcur hsig => exact .killLoad hm hnum hcur hsig
  | @killStore r i sig pending hm hcur =>
    have hstep := @Step.killStore env (m.shift p) r i sig pending hm hcur
    rw [clobber_shift hb] at hstep
    exact hstep
  | iret hm => exact .iret hm

/-- Every step on the whole disk is one of these. -/
theorem step_of_shift {m n : Machine} {ev : Event} (h : Step env (m.shift p) ev n) :
    ∃ m', n = m'.shift p ∧ Step (env.onPartition p) m ev m' := by
  cases h with
  -- no step but a call looks at the driver's variables
  | compute hm hr hr' => exact ⟨_, rfl, .compute hm hr hr'⟩
  | write hm hr hw hs => exact ⟨{ m with kern := _, mem := _ }, rfl, .write hm hr hw hs⟩
  | fault hm hr => exact ⟨_, rfl, .fault hm hr⟩
  | tick hm hr hs =>
    exact ⟨{ m with kern := _, cr3 := _, mem := _, mode := _ }, rfl, .tick hm hr hs⟩
  | tickFault hm hr hs =>
    exact ⟨{ m with kern := _, cr3 := _, mem := _, mode := _ }, rfl, .tickFault hm hr hs⟩
  | tickKernel hm h0 hs =>
    exact ⟨{ m with kern := _, cr3 := _, mem := _ }, rfl, .tickKernel hm h0 hs⟩
  | key hm => exact ⟨_, rfl, .key hm⟩
  | int30 hm hr => exact ⟨_, rfl, .int30 hm hr⟩
  | @call r c hm hc =>
    obtain ⟨h', hc', hcall⟩ := syscallHandler_from hb (s := m.calling) hc
    cases h' with
    | spins s => cases hc'
    | returns c' =>
      cases hc'
      rw [clobber_shift hb]
      exact ⟨_, rfl, @Step.call (env.onPartition p) m r c' hm hcall⟩
  | @callSpins r s hm hc =>
    obtain ⟨h', hc', hcall⟩ := syscallHandler_from hb (s := m.calling) hc
    cases h' with
    | returns c => cases hc'
    | spins s' =>
      cases hc'
      exact ⟨_, rfl, @Step.callSpins (env.onPartition p) m r s' hm hcall⟩
  | @callFault r hm hc =>
    have hcall := (syscallHandler_faults hb (s := m.calling)).mp hc
    exact ⟨_, rfl, @Step.callFault (env.onPartition p) m r hm hcall⟩
  | killLoad hm hnum hcur hsig => exact ⟨_, rfl, .killLoad hm hnum hcur hsig⟩
  | @killStore r i sig pending hm hcur =>
    rw [clobber_shift hb]
    exact ⟨_, rfl, @Step.killStore (env.onPartition p) m r i sig pending hm hcur⟩
  | iret hm => exact ⟨_, rfl, .iret hm⟩

/-- **The runs are the same.** -/
theorem runs_shift {m n : Machine} {h : List Event} :
    Run (Step env) (m.shift p) h n ↔
      ∃ m', n = m'.shift p ∧ Run (Step (env.onPartition p)) m h m' := by
  constructor
  · exact Run.lift fun _ _ _ => step_of_shift hb
  · rintro ⟨m', rfl, hrun⟩
    exact Run.image (f := Machine.shift p) (fun _ _ _ => step_shift hb) hrun

end Machine

end PepinOS
