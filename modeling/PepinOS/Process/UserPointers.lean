import PepinOS.Process.Launched
import PepinOS.Process.OpenSpaces
import PepinOS.Process.UserMemory

/-!
# Pointers from user programs

Four entry points follow an address that a program chose: the string of
`SYS_PRINT`, the path of `SYS_OPEN`, the buffer of `SYS_READ` and the stack of a
task a signal is delivered to. None of them looks at the page tables first, so
nothing keeps the kernel from using its privilege there.

To say what difference that makes, the same entry points are written once more
with a check in front of each access (`checkedLoad`, `checkedStore`); a refused
access ends the operation. The check is a parameter. `user_pointers_own` is that
checking `permits` changes nothing: in a directory as the kernel makes them, an
address that is mapped at all is one the task can use itself, or the alias of such
an address in the window at 3 GB. Checking the task's own rights at the address
itself is not the same (`user_pointers_window`).
-/

namespace PepinOS

section Checked

variable (mayLoad mayStore : Mem → U32 → U32 → Bool)

/-- `userLoad`, refused at a mapped address that fails the check. -/
def checkedLoad (l : Link) (cr3 : U32) (k : Kernel) (mem : Mem) (e : Ext2) (va : U32) :
    Except Trap U8 :=
  if (translate mem cr3 va).isSome && !mayLoad mem cr3 va then .error .untracked
  else userLoad l cr3 k mem e va

/-- `userStore` likewise. -/
def checkedStore (l : Link) (cr3 : U32) (s : Store) (va : U32) (b : U8) : Except Trap Store :=
  if (translate s.2 cr3 va).isSome && !mayStore s.2 cr3 va then .error .untracked
  else userStore l cr3 s va b

end Checked

/-! ## The entry points over any access -/

/-- `SYS_PRINT`, reading through `fetch`. -/
def printWith (fetch : U32 → Except Trap U8) (s : Calling) (f : Frame) : Except Trap Handled := do
  match ← cString fetch (2 ^ 32) f.ebx with
  | none => return .spins s
  | some text => return .returns ⟨{ s with kern := s.kern.printed 0x0F#8 text }, f, 0#32, .quiet⟩

/-- `SYS_OPEN`, reading through `fetch`. -/
def openWith (env : Env) (fetch : Ext2 → U32 → Except Trap U8) (s : Calling) (f : Frame) :
    Except Trap Returned := do
  let (pool, ext2, node) ← vfsOpen env.disk (env.link.behind s.kern) fetch s.kern.nodePool s.ext2
    f.ebx
  let s := { s with kern := { s.kern with nodePool := pool }, ext2 := ext2 }
  match node with
  | none => return ⟨s, f, minusOne, .quiet⟩
  | some n =>
    match s.kern.sched.cur with
    | none => throw .untracked
    | some i =>
      let t := s.kern.task i
      match freeFd t.files with
      | none =>
        return ⟨{ s with kern := { s.kern with nodePool := vfsClose pool (some n) } }, f, minusOne,
          .quiet⟩
      | some fd =>
        let d : Fd := { node := some n, offset := 0#32, used := true }
        return ⟨s.setTask i (t.setFd fd d), f, BitVec.ofNat 32 fd.val,
          .opened i fd (pool n).inode⟩

/-- `SYS_READ`, writing through `store`. -/
def readWith (env : Env) (store : Store → U32 → U8 → Except Trap Store) (s : Calling) (f : Frame) :
    Except Trap Returned :=
  match fdArg f.ebx with
  | none => return ⟨s, f, minusOne, .quiet⟩
  | some fd =>
    match s.kern.sched.cur with
    | none => throw .untracked
    | some i => do
      let d := (s.kern.task i).files fd
      if d.used = false then return ⟨s, f, minusOne, .quiet⟩
      let (ext2, c) ← vfsRead env.disk store s.kern.nodePool s.ext2 (s.kern, s.mem) d.node d.offset
        f.edx f.ecx
      let n := BitVec.ofNat 32 c.bytes.length
      let s : Calling := ⟨c.port.1, ext2, c.port.2⟩
      let t := s.kern.task i
      let d := t.files fd
      return ⟨s.setTask i (t.setFd fd { d with offset := d.offset + n }), f, n,
        .read i fd f.edx c.bytes⟩

/-- The four bytes of a word, written through `store`. -/
def store32With (store : Store → U32 → U8 → Except Trap Store) (s : Store) (va w : U32) :
    Except Trap Store := do
  let s ← store s va (byteOf w 0)
  let s ← store s (va + 1#32) (byteOf w 1)
  let s ← store s (va + 2#32) (byteOf w 2)
  store s (va + 3#32) (byteOf w 3)

/-- The injection of a handler call, its frame written through `store`. -/
def injectWith (store : Store → U32 → U8 → Except Trap Store) (k : Kernel) (mem : Mem) (j : Fin 8)
    (ctx : Ctx) (sig : Fin 32) : Except (Trap × Store) (Store × Ctx) :=
  let k := k.setTask j { k.task j with sigSavedRegs := ctx }
  let ctx := Function.update ctx 11 (ctx 11 - 4#32)
  match store32With store (k, mem) (ctx 11) (BitVec.ofNat 32 sig.val) with
  | .error t => .error (t, k, mem)
  | .ok (k, mem) =>
    let ctx := Function.update ctx 11 (ctx 11 - 4#32)
    match store32With store (k, mem) (ctx 11) 0#32 with
    | .error t => .error (t, k, mem)
    | .ok (k, mem) =>
      let t := k.task j
      let ctx := Function.update ctx 8 (t.sigHandlers sig)
      let k := k.setTask j
        { t with sigInHandler := true, sigPending := t.sigPending &&& ~~~(1#32 <<< sig.val) }
      .ok ((k, mem), ctx)

/-- `do_switch`, a signal frame in the directory at `c` written through `store c`. -/
def switchWith (store : U32 → Store → U32 → U8 → Except Trap Store) (k : Kernel) (cr3 : U32)
    (mem : Mem) (ctx : Ctx) : Except (Trap × Store × U32) Switched :=
  match k.sched.cur with
  | none => .ok ⟨k, cr3, mem, ctx, .quiet⟩
  | some i =>
    if rpl (ctx 9) = 0#32 then .ok ⟨k, cr3, mem, ctx, .quiet⟩
    else
      let k := saveContext k i ctx cr3
      match listEntry (nextNode k.sched i) with
      | none => .error (.untracked, (k, mem), cr3)
      | some j =>
        let t := k.task j
        let k := resumeTask k j
        match signalFor t with
        | none => .ok ⟨k, t.cr3, mem, t.regs, .switched i j ctx t.regs none⟩
        | some sig =>
          match injectWith (store t.cr3) k mem j t.regs sig with
          | .error (e, s) => .error (e, s, t.cr3)
          | .ok ((k, mem), left) =>
            .ok ⟨k, t.cr3, mem, left, .switched i j ctx left (some (sig, t.regs))⟩

section Checked

variable (mayLoad mayStore : Mem → U32 → U32 → Bool)

/-- `syscall_handler` with the check; the other calls take no pointer. -/
def checkedHandler (env : Env) (cr3 : U32) (s : Calling) (f : Frame) : Except Trap Handled := do
  if f.eax = sysPrint then
    printWith (checkedLoad mayLoad env.link cr3 s.kern s.mem s.ext2) s f
  else if f.eax = sysOpen then
    return .returns (← openWith env (checkedLoad mayLoad env.link cr3 s.kern s.mem) s f)
  else if f.eax = sysRead then
    return .returns (← readWith env (checkedStore mayStore env.link cr3) s f)
  else syscallHandler env cr3 s f

/-- `do_switch` with the check. -/
def checkedSwitch (l : Link) (k : Kernel) (cr3 : U32) (mem : Mem) (ctx : Ctx) :
    Except (Trap × Store × U32) Switched :=
  switchWith (checkedStore mayStore l) k cr3 mem ctx

end Checked

/-- Without a check these are the entry points of the source. -/
theorem callPrint_with (env : Env) (cr3 : U32) (s : Calling) (f : Frame) :
    callPrint env cr3 s f = printWith (userLoad env.link cr3 s.kern s.mem s.ext2) s f := rfl

theorem callOpen_with (env : Env) (cr3 : U32) (s : Calling) (f : Frame) :
    callOpen env cr3 s f = openWith env (userLoad env.link cr3 s.kern s.mem) s f := rfl

theorem callRead_with (env : Env) (cr3 : U32) (s : Calling) (f : Frame) :
    callRead env cr3 s f = readWith env (userStore env.link cr3) s f := rfl

theorem doSwitch_with (l : Link) (k : Kernel) (cr3 : U32) (mem : Mem) (ctx : Ctx) :
    doSwitch l k cr3 mem ctx = switchWith (userStore l) k cr3 mem ctx := rfl

/-! ## Accesses that agree

A run of an entry point depends on its stores only at the states it comes to; `P` is
what holds there. -/

section Agree

variable {M : Type} {P : M → Prop} {store store' : M → U32 → U8 → Except Trap M} {disk : Disk}

theorem copyBlock_congr (hstore : ∀ m va b m', P m → store m va b = .ok m' → P m')
    (hsame : ∀ m va b, P m → store m va b = store' m va b) {buf : U32} {size : Nat}
    {src : Nat → U8} : ∀ {n j : Nat} {s : Copied M}, P s.port →
      copyBlock store buf size src n j s = copyBlock store' buf size src n j s := by
  intro n
  induction n with
  | zero =>
    intro j s _
    rfl
  | succ n ih =>
    intro j s hP
    rw [copyBlock, copyBlock]
    split
    next =>
      rw [← hsame _ _ _ hP]
      exact bind_congr_ok fun port hport => ih (hstore _ _ _ _ hP hport)
    next => rfl

theorem preadLoop_congr (hstore : ∀ m va b m', P m → store m va b = .ok m' → P m')
    (hsame : ∀ m va b, P m → store m va b = store' m va b) {inode : Inode} {buf : U32}
    {size : Nat} : ∀ {n blk blkOff : Nat} {e : Ext2} {s : Copied M}, P s.port →
      preadLoop disk store inode buf size n blk blkOff e s =
        preadLoop disk store' inode buf size n blk blkOff e s := by
  intro n
  induction n with
  | zero =>
    intro blk blkOff e s _
    rfl
  | succ n ih =>
    intro blk blkOff e s hP
    rw [preadLoop, preadLoop]
    split
    next =>
      simp only
      split
      next =>
        -- a sparse block
        rw [← copyBlock_congr hstore hsame hP]
        exact bind_congr_ok fun s' hs => ih (copyBlock_keeps hstore hs hP).1
      next =>
        refine bind_congr_ok fun blkA _ => ?_
        rw [← copyBlock_congr hstore hsame hP]
        exact bind_congr_ok fun s' hs => ih (copyBlock_keeps hstore hs hP).1
    next => rfl

theorem vfsRead_congr (hstore : ∀ m va b m', P m → store m va b = .ok m' → P m')
    (hsame : ∀ m va b, P m → store m va b = store' m va b) {pool : NodePool} {e : Ext2} {m : M}
    {node : Option (Fin 8)} {offset size buf : U32} (hP : P m) :
    vfsRead disk store pool e m node offset size buf =
      vfsRead disk store' pool e m node offset size buf := by
  unfold vfsRead
  split
  next => rfl
  next i =>
    split
    next => rfl
    next =>
      refine bind_congr_ok fun a _ => ?_
      simp only
      split
      next => rfl
      next => exact preadLoop_congr hstore hsame hP

end Agree

section AgreeStore

variable {P : Store → Prop} {store store' : Store → U32 → U8 → Except Trap Store}

theorem readWith_congr (hstore : ∀ m va b m', P m → store m va b = .ok m' → P m')
    (hsame : ∀ m va b, P m → store m va b = store' m va b) {env : Env} {s : Calling} {f : Frame}
    (hP : P (s.kern, s.mem)) : readWith env store s f = readWith env store' s f := by
  unfold readWith
  split
  next => rfl
  next fd _ =>
    split
    next => rfl
    next i _ => simp only [vfsRead_congr hstore hsame hP]

theorem store32With_congr (hstore : ∀ m va b m', P m → store m va b = .ok m' → P m')
    (hsame : ∀ m va b, P m → store m va b = store' m va b) {s : Store} (va w : U32) (hP : P s) :
    store32With store s va w = store32With store' s va w ∧
      ∀ s', store32With store s va w = .ok s' → P s' := by
  unfold store32With
  constructor
  · rw [← hsame _ _ _ hP]
    refine bind_congr_ok fun s1 h1 => ?_
    have P1 := hstore _ _ _ _ hP h1
    rw [← hsame _ _ _ P1]
    refine bind_congr_ok fun s2 h2 => ?_
    have P2 := hstore _ _ _ _ P1 h2
    rw [← hsame _ _ _ P2]
    refine bind_congr_ok fun s3 h3 => ?_
    exact hsame _ _ _ (hstore _ _ _ _ P2 h3)
  · intro s' h
    obtain ⟨s1, h1, h⟩ := bind_ok h
    obtain ⟨s2, h2, h⟩ := bind_ok h
    obtain ⟨s3, h3, h⟩ := bind_ok h
    exact hstore _ _ _ _ (hstore _ _ _ _ (hstore _ _ _ _ (hstore _ _ _ _ hP h1) h2) h3) h

theorem injectWith_congr (hstore : ∀ m va b m', P m → store m va b = .ok m' → P m')
    (hsame : ∀ m va b, P m → store m va b = store' m va b) {k : Kernel} {mem : Mem} {j : Fin 8}
    {ctx : Ctx} {sig : Fin 32}
    (hP : P (k.setTask j { k.task j with sigSavedRegs := ctx }, mem)) :
    injectWith store k mem j ctx sig = injectWith store' k mem j ctx sig := by
  unfold injectWith
  obtain ⟨heq, hkeep⟩ := store32With_congr hstore hsame
    (Function.update ctx 11 (ctx 11 - 4#32) 11) (BitVec.ofNat 32 sig.val) hP
  simp only [← heq]
  generalize store32With store _ _ _ = o at hkeep ⊢
  cases o with
  | error t => rfl
  | ok s1 =>
    -- the second word, on what the first one left
    simp only [(store32With_congr hstore hsame _ _ (hkeep s1 rfl)).1]

/-- `switchWith` over two stores that agree from the resumed task on. -/
theorem switchWith_congr {store store' : U32 → Store → U32 → U8 → Except Trap Store} {k : Kernel}
    {cr3 : U32} {mem : Mem} {ctx : Ctx}
    (h : ∀ i j, k.sched.cur = some i → nextNode k.sched i = .task j → ∀ sig,
      injectWith (store ((saveContext k i ctx cr3).task j).cr3)
          (resumeTask (saveContext k i ctx cr3) j) mem j ((saveContext k i ctx cr3).task j).regs sig =
        injectWith (store' ((saveContext k i ctx cr3).task j).cr3)
          (resumeTask (saveContext k i ctx cr3) j) mem j ((saveContext k i ctx cr3).task j).regs sig) :
    switchWith store k cr3 mem ctx = switchWith store' k cr3 mem ctx := by
  unfold switchWith
  cases hcur : k.sched.cur with
  | none => rfl
  | some i =>
    simp only
    split
    next => rfl
    next =>
      cases hj : listEntry (nextNode (saveContext k i ctx cr3).sched i) with
      | none => rfl
      | some j =>
        cases hsig : signalFor ((saveContext k i ctx cr3).task j) with
        | none => simp only [hsig]
        | some sig => simp only [hsig, h i j hcur (nextNode_of_entry hj) sig]

end AgreeStore

/-! ## The check of the kernel's own -/

section Own

variable {l : Link} {cr3 : U32}

/-- A store outside the tables leaves the directory open. -/
theorem OpenDir.store8 {m : Mem} {pa : Nat} (h : OpenDir m cr3) (hpa : inTables m cr3 pa = false)
    (b : U8) : OpenDir (store8 m pa b) cr3 := by
  refine h.congr (fun x hx => Function.update_of_ne (fun e => ?_) ..) fun e t he ht => ?_
  · exact inTables_dir hpa (e ▸ hx)
  · refine (h.tables e t he ht).congr fun x hx => Function.update_of_ne (fun hxp => ?_) ..
    exact inTables_table hpa he ht (hxp ▸ hx)

theorem OpenDir.userStore {s s' : Store} {va : U32} {b : U8} (h : OpenDir s.2 cr3)
    (hs : userStore l.guarded cr3 s va b = .ok s') : OpenDir s'.2 cr3 := by
  obtain ⟨pa, _, _, hin, rfl⟩ := userStore_guarded hs
  exact h.store8 hin b

/-- In an open directory the check of `permits` refuses nothing. -/
theorem OpenDir.passes {m : Mem} (h : OpenDir m cr3) (va : U32) :
    ((translate m cr3 va).isSome && !PepinOS.permits m cr3 va) = false := by
  cases htr : translate m cr3 va with
  | none => rfl
  | some pa => rw [h.permits htr, Bool.not_true, Bool.and_false]

theorem OpenDir.checkedLoad {m : Mem} (h : OpenDir m cr3) (k : Kernel) :
    checkedLoad PepinOS.permits l cr3 k m = userLoad l cr3 k m := by
  funext e va
  unfold PepinOS.checkedLoad
  rw [h.passes va]
  rfl

theorem OpenDir.checkedStore {s : Store} (h : OpenDir s.2 cr3) (va : U32) (b : U8) :
    PepinOS.userStore l cr3 s va b = checkedStore PepinOS.permits l cr3 s va b := by
  unfold PepinOS.checkedStore
  rw [h.passes va]
  rfl

end Own

/-- The directory at `cr3` and its tables, as they were. -/
def SameTables (m m' : Mem) (cr3 : U32) : Prop := ∀ x, inTables m cr3 x = true → m' x = m x

theorem OpenDir.sameTables {m m' : Mem} {cr3 : U32} (h : OpenDir m cr3)
    (hm : SameTables m m' cr3) : OpenDir m' cr3 := by
  refine h.congr (fun x hx => hm x (inTables_iff.mpr (.inl hx))) fun e t he ht => ?_
  refine (h.tables e t he ht).congr fun x hx => hm x (inTables_iff.mpr (.inr ⟨e, he, ?_⟩))
  rw [hx]
  exact ht

/-- The calls of a task in an open directory. -/
theorem OpenDir.syscall {env : Env} {s : Calling} {cr3 : U32} (h : OpenDir s.mem cr3) (f : Frame) :
    syscallHandler env.guarded cr3 s f =
      checkedHandler PepinOS.permits PepinOS.permits env.guarded cr3 s f := by
  unfold checkedHandler
  split
  next heax =>
    rw [h.checkedLoad, ← callPrint_with]
    exact if_pos heax
  next hprint =>
    split
    next heax =>
      rw [h.checkedLoad, ← callOpen_with]
      unfold syscallHandler
      rw [heax]
      rfl
    next =>
      split
      next heax =>
        -- each byte that the read stores leaves the directory open
        have hsame : readWith env.guarded (PepinOS.userStore env.guarded.link cr3) s f =
            readWith env.guarded (PepinOS.checkedStore PepinOS.permits env.guarded.link cr3) s f :=
          readWith_congr (P := fun s => OpenDir s.2 cr3) (fun _ _ _ _ hP hs => hP.userStore hs)
            (fun _ va b hP => hP.checkedStore va b) h
        rw [← hsame, ← callRead_with]
        unfold syscallHandler
        rw [heax]
        rfl
      next => rfl

/-- A switch to a task with an open directory. -/
theorem OpenDir.switch {l : Link} {k : Kernel} {cr3 : U32} {mem : Mem} {ctx : Ctx}
    (h : ∀ i j, k.sched.cur = some i → nextNode k.sched i = .task j →
      OpenDir mem ((saveContext k i ctx cr3).task j).cr3) :
    doSwitch l.guarded k cr3 mem ctx = checkedSwitch PepinOS.permits l.guarded k cr3 mem ctx := by
  rw [doSwitch_with]
  refine switchWith_congr fun i j hcur hnext sig => ?_
  exact injectWith_congr (P := fun s => OpenDir s.2 ((saveContext k i ctx cr3).task j).cr3)
    (fun _ _ _ _ hP hs => hP.userStore hs) (fun _ va b hP => hP.checkedStore va b) (h i j hcur hnext)

/-- **The kernel uses its privilege on nothing the task could not use itself**, the alias
at 3 GB included: what is mapped in the directory of a task `permits` allows, and the
system calls of the task and the switches to it do the same with that check before each
access through a pointer of the task. A file with a page below 16 MB is not meant:
the TLB decides where the loader's stores go once it is mapped. -/
theorem user_pointers_own {b : ElfBuf} {s : Loader} {ts : List Member} (hc : Created b s ts)
    {t : Member} (ht : t ∈ ts) {mem : Mem} (hmem : SameTables s.mem mem t.cr3) (env : Env) :
    (∀ v, (translate mem t.cr3 v).isSome → permits mem t.cr3 v = true) ∧
    (∀ kern ext2 f, syscallHandler env.guarded t.cr3 ⟨kern, ext2, mem⟩ f =
      checkedHandler permits permits env.guarded t.cr3 ⟨kern, ext2, mem⟩ f) ∧
    ∀ kern cr3 ctx, (∀ i j, kern.sched.cur = some i → nextNode kern.sched i = .task j →
        ((saveContext kern i ctx cr3).task j).cr3 = t.cr3) →
      doSwitch env.guarded.link kern cr3 mem ctx =
        checkedSwitch permits env.guarded.link kern cr3 mem ctx := by
  have hopen : OpenDir mem t.cr3 := (hc.open.dirs t ht).sameTables hmem
  refine ⟨fun v hv => ?_, fun kern ext2 f => OpenDir.syscall (s := ⟨kern, ext2, mem⟩) hopen f,
    fun kern cr3 ctx hnext => OpenDir.switch fun i j hcur hj => ?_⟩
  · obtain ⟨pa, hpa⟩ := Option.isSome_iff_exists.mp hv
    exact hopen.permits hpa
  · rw [hnext i j hcur hj]
    exact hopen

/-- Task A of the demo, with any kernel. -/
theorem user_pointers_own_taskA : ∃ s, launchTasks 0x100000 0x100400 (freshLoader (fun _ => 0#8)
      0x2000000#32 (fun _ => newTask 0 0 0 0 0 0 0)) = some s ∧
    ∀ (env : Env) (kern : Kernel) (ext2 : Ext2) (f : Frame),
      syscallHandler env.guarded taskA.cr3 ⟨kern, ext2, s.mem⟩ f =
        checkedHandler permits permits env.guarded taskA.cr3 ⟨kern, ext2, s.mem⟩ f := by
  obtain ⟨s, hs, _⟩ := launched_exists
  refine ⟨s, hs, fun env => ?_⟩
  exact (user_pointers_own (created_launched (b := lowBuf) (.boot ..) hs)
    (List.mem_cons_self ..) (fun _ _ => rfl) env).2.1

/-! ## The window at 3 GB -/

/-- In a demo directory 0xC0000000 is physical 0, and not for ring 3. -/
theorem DemoDir.window {m : Mem} {cr3 : U32} {l : Nat} (h : DemoDir m cr3 l)
    (hk : KernelTables m) : translate m cr3 0xC0000000#32 = some 0 ∧
      userAccess m cr3 0xC0000000#32 = false := by
  have hpd : pdIndex 0xC0000000#32 = 768 := by rw [pdIndex_eq]; rfl
  have hpt : ptIndex 0xC0000000#32 = 0 := by rw [ptIndex_eq]; rfl
  have hde : (pde m cr3 0xC0000000#32).toNat = 0x201 * 4096 + 3 := by
    unfold pde
    rw [hpd, h 768 (by omega)]
    rfl
  have hfr : frameAddr (pde m cr3 0xC0000000#32) = kernelPtAddr := by
    rw [frameAddr_eq, hde]
    rfl
  have hte : (pte m cr3 0xC0000000#32).toNat = 0 * 4096 + 7 := by
    unfold pte
    rw [hfr, hpt, hk 0 (by omega)]
  have hd : present (pde m cr3 0xC0000000#32) = true := by rw [present_iff, hde]
  have hu : userBit (pde m cr3 0xC0000000#32) = false := by
    rw [Bool.eq_false_iff, ne_eq, userBit_iff, hde]
    omega
  refine ⟨?_, ?_⟩
  · rw [translate_present hd (present_entry hte), frameAddr_entry hte]
    rfl
  · unfold userAccess
    rw [hu, Bool.and_false, Bool.false_and]

/-- A string ends in no fault that none of its bytes ends in. -/
theorem cString_ne_error {fetch : U32 → Except Trap U8} {t : Trap}
    (hfetch : ∀ p, fetch p ≠ .error t) : ∀ (n : Nat) (p : U32), cString fetch n p ≠ .error t := by
  intro n
  induction n with
  | zero => nofun
  | succ n ih =>
    intro p
    refine bind_ne_error (hfetch p) fun c => ?_
    split
    next => nofun
    next => exact bind_ne_error (ih _) fun _ => nofun

theorem userLoad_ne_untracked (l : Link) (cr3 : U32) (k : Kernel) (mem : Mem) (e : Ext2) (va : U32) :
    userLoad l cr3 k mem e va ≠ .error .untracked := by
  unfold userLoad
  split
  next => nofun
  next => nofun

/-- `SYS_PRINT` of a string in the window prints what lies at its physical address; with the
task's own rights as the check it would be refused. -/
theorem DemoDir.print {env : Env} {s : Calling} {cr3 : U32} {l : Nat} {f : Frame}
    (h : DemoDir s.mem cr3 l) (hk : KernelTables s.mem) (heax : f.eax = sysPrint)
    (hebx : f.ebx = 0xC0000000#32) :
    syscallHandler env cr3 s f ≠ checkedHandler userAccess userWritable env cr3 s f := by
  obtain ⟨htr, hacc⟩ := h.window hk
  have hrefused : checkedHandler userAccess userWritable env cr3 s f = .error .untracked := by
    have hfirst : checkedLoad userAccess env.link cr3 s.kern s.mem s.ext2 0xC0000000#32 =
        .error .untracked := by
      unfold checkedLoad
      rw [htr, hacc]
      rfl
    unfold checkedHandler
    rw [if_pos heax]
    unfold printWith
    rw [hebx, show (2 : Nat) ^ 32 = (2 ^ 32 - 1) + 1 by omega, cString, hfirst]
    rfl
  rw [hrefused]
  unfold syscallHandler
  rw [if_pos heax]
  refine bind_ne_error (cString_ne_error (userLoad_ne_untracked _ _ _ _ _) _ _) fun text => ?_
  cases text with
  | none => nofun
  | some text => nofun

/-- **The task's own rights are not the check**: task A prints through the window. -/
theorem user_pointers_window : ¬∀ (b : ElfBuf) (s : Loader) (ts : List Member), Created b s ts →
    ∀ t ∈ ts, ∀ (env : Env) (kern : Kernel) (ext2 : Ext2) (f : Frame),
      syscallHandler env t.cr3 ⟨kern, ext2, s.mem⟩ f =
        checkedHandler userAccess userWritable env t.cr3 ⟨kern, ext2, s.mem⟩ f := by
  intro hall
  obtain ⟨s, hs, hl⟩ := launched_exists
  obtain ⟨m, _⟩ := demo_exists (ext2Unmounted 0#32)
  let link : Link := ⟨fun _ => false, fun _ _ _ _ => 0#8, fun _ _ _ _ => none, fun _ _ _ => 0#8⟩
  let env : Env := ⟨link, fun _ _ => 0#8, fun _ _ _ _ => (0#32, 0#32)⟩
  let f : Frame := ⟨sysPrint, 0xC0000000#32, 0#32, 0#32, 0#32, 0#32, 0#32, 0#32, 0#32⟩
  have hsame := hall lowBuf _ _ (created_launched (.boot ..) hs) taskA (List.mem_cons_self ..) env
    m.kern m.ext2 f
  exact hl.dirA.print (s := ⟨m.kern, m.ext2, s.mem⟩) hl.tables rfl rfl hsame

end PepinOS
