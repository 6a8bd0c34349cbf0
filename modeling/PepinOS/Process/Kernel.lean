import PepinOS.Arch.Cpu
import PepinOS.Mm.Paging
import PepinOS.Drivers.Keyboard
import PepinOS.Fs.Vfs

/-!
# The kernel's variables and user pointers

Once the tasks run, the kernel's own variables live beside physical memory here:
the scheduler, the kernel stack in the TSS, the node pool, keyboard and screen.
In the machine they are bytes of the kernel image, which the linker places and
which every task has mapped. So an access through a user pointer (a path, a
read buffer, the two words of a signal frame) goes through the page tables and
then either to ordinary memory or to the kernel's own; nothing in the sources
checks which.

`Link` is what the build decides: the physical addresses the kernel owns (its
image, its stacks, the tables of the processor) and what reading and writing one
of them means. The page directory and the page tables in use count as the
kernel's too (`inTables`). `Link.guarded` is the same kernel on a machine that
stops instead of storing there: its runs are the runs in which no store through a
user pointer lands in the kernel's own memory.
-/

namespace PepinOS

/-- The static variables of the kernel, the allocator and the ext2 driver apart. -/
structure Kernel where
  sched : Sched
  esp0 : U32
  nodePool : NodePool
  keyboard : Keyboard
  screen : Screen

/-- The kernel's own memory as the linker laid it out. -/
structure Link where
  owns : Nat → Bool
  /-- A byte the kernel owns. -/
  peek : Kernel → Ext2 → Mem → Nat → U8
  /-- A store to a byte the kernel owns; `none` where the effect is not followed. -/
  poke : Kernel → Mem → Nat → U8 → Option (Kernel × Mem)
  /-- The bytes from the end of `blk_b` on. -/
  behind : Kernel → Ext2 → Nat → U8

/-- The machine stops before a store into the kernel's own memory. -/
def Link.guarded (l : Link) : Link := { l with poke := fun _ _ _ _ => none }

/-- What a run cannot change: the build and the disk. -/
structure Env where
  link : Link
  disk : Disk
  /-- ECX and EDX as the compiled `syscall_handler` leaves them -/
  clobber : Kernel → Ext2 → Mem → Frame → U32 × U32

def Env.guarded (env : Env) : Env := { env with link := env.link.guarded }

/-! ## Accesses through a user pointer -/

/-- A byte read by the kernel at virtual address `va`. -/
def userLoad (l : Link) (cr3 : U32) (k : Kernel) (mem : Mem) (e : Ext2) (va : U32) :
    Except Trap U8 :=
  match translate mem cr3 va with
  | none => .error .exception
  | some pa => .ok (if l.owns pa then l.peek k e mem pa else mem pa)

/-- The kernel's variables and memory, the state a store can change. -/
abbrev Store := Kernel × Mem

/-- `pa` lies in the page directory at `cr3` or in one of its tables. -/
def inTables (mem : Mem) (cr3 : U32) (pa : Nat) : Bool :=
  pa / 4096 == cr3.toNat / 4096 ||
    (List.range 1024).any fun e => tableFrame mem cr3 e == some (pa / 4096)

/-- A byte stored by the kernel at virtual address `va`. In ring 0 the write bit of
the entries does not count. -/
def userStore (l : Link) (cr3 : U32) (s : Store) (va : U32) (b : U8) : Except Trap Store :=
  match translate s.2 cr3 va with
  | none => .error .exception
  | some pa =>
    if l.owns pa || inTables s.2 cr3 pa then
      match l.poke s.1 s.2 pa b with
      | none => .error .untracked
      | some s => .ok s
    else .ok (s.1, store8 s.2 pa b)

/-- `*(u32 *) va = w`. -/
def userStore32 (l : Link) (cr3 : U32) (s : Store) (va w : U32) : Except Trap Store := do
  let s ← userStore l cr3 s va (byteOf w 0)
  let s ← userStore l cr3 s (va + 1#32) (byteOf w 1)
  let s ← userStore l cr3 s (va + 2#32) (byteOf w 2)
  userStore l cr3 s (va + 3#32) (byteOf w 3)

/-- The bytes of the NUL-terminated string at `p`, at most `n` of them; `none` when
there is no NUL among them. -/
def cString (fetch : U32 → Except Trap U8) : Nat → U32 → Except Trap (Option (List U8))
  | 0, _ => return none
  | n + 1, p => do
    let c ← fetch p
    if c = 0#8 then return some []
    return (← cString fetch n (p + 1#32)).map (c :: ·)

/-! ## Stores that the guarded machine makes -/

/-- On the guarded machine a store goes to ordinary memory. -/
theorem userStore_guarded {l : Link} {cr3 va : U32} {s s' : Store} {b : U8}
    (h : userStore l.guarded cr3 s va b = .ok s') :
    ∃ pa, translate s.2 cr3 va = some pa ∧ l.owns pa = false ∧ inTables s.2 cr3 pa = false ∧
      s' = (s.1, store8 s.2 pa b) := by
  unfold userStore Link.guarded at h
  split at h
  next => cases h
  next pa htr =>
    split at h
    next => cases h
    next hown =>
      cases h
      rw [Bool.or_eq_true, not_or, Bool.not_eq_true, Bool.not_eq_true] at hown
      exact ⟨pa, htr, hown.1, hown.2, rfl⟩

/-- Bytes the kernel owns read the same before and after. -/
def SameOwned (l : Link) (mem mem' : Mem) : Prop := ∀ pa, l.owns pa = true → mem' pa = mem pa

theorem SameOwned.refl (l : Link) (mem : Mem) : SameOwned l mem mem := fun _ _ => rfl

theorem SameOwned.trans {l : Link} {m1 m2 m3 : Mem} (h1 : SameOwned l m1 m2)
    (h2 : SameOwned l m2 m3) : SameOwned l m1 m3 :=
  fun pa hpa => (h2 pa hpa).trans (h1 pa hpa)

/-- A store of the guarded machine leaves the kernel's variables and its own memory. -/
theorem userStore_kept {l : Link} {cr3 va : U32} {s s' : Store} {b : U8}
    (h : userStore l.guarded cr3 s va b = .ok s') : s'.1 = s.1 ∧ SameOwned l s.2 s'.2 := by
  obtain ⟨pa, _, hown, _, rfl⟩ := userStore_guarded h
  refine ⟨rfl, fun x hx => ?_⟩
  have hne : x ≠ pa := by
    intro e
    rw [e, hown] at hx
    cases hx
  exact Function.update_of_ne hne ..

theorem userStore32_cases {l : Link} {cr3 va w : U32} {s s' : Store}
    (h : userStore32 l cr3 s va w = .ok s') : ∃ s1 s2 s3,
      userStore l cr3 s va (byteOf w 0) = .ok s1 ∧
      userStore l cr3 s1 (va + 1#32) (byteOf w 1) = .ok s2 ∧
      userStore l cr3 s2 (va + 2#32) (byteOf w 2) = .ok s3 ∧
      userStore l cr3 s3 (va + 3#32) (byteOf w 3) = .ok s' := by
  unfold userStore32 at h
  simp only [bind, Except.bind] at h
  split at h
  next => cases h
  next s1 h1 =>
    split at h
    next => cases h
    next s2 h2 =>
      split at h
      next => cases h
      next s3 h3 => exact ⟨s1, s2, s3, h1, h2, h3, h⟩

theorem userStore32_kept {l : Link} {cr3 va w : U32} {s s' : Store}
    (h : userStore32 l.guarded cr3 s va w = .ok s') : s'.1 = s.1 ∧ SameOwned l s.2 s'.2 := by
  obtain ⟨s1, s2, s3, h1, h2, h3, h4⟩ := userStore32_cases h
  obtain ⟨e1, o1⟩ := userStore_kept h1
  obtain ⟨e2, o2⟩ := userStore_kept h2
  obtain ⟨e3, o3⟩ := userStore_kept h3
  obtain ⟨e4, o4⟩ := userStore_kept h4
  exact ⟨by rw [e4, e3, e2, e1], ((o1.trans o2).trans o3).trans o4⟩

end PepinOS
