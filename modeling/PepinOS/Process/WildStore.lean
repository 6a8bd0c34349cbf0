import PepinOS.Process.Launched

/-!
# Stores that land in the scheduler

Nothing in the sources checks a user pointer, and the kernel's own image is mapped
in every task. So the two words `do_switch` pushes for a handler go where ESP
points, and that may be `task_pool`. This file places the scheduler's variables at
fixed addresses of the image, as one build might, and gives stores to them their
effect: a word that goes there goes to a field of the scheduler (`wild_store32`).
The modules on what the scheduler guarantees use it where the guarantee ends.

`Field` lists the words a store is followed into; a word of the kernel's that is
none of them is left out.
-/

namespace PepinOS

/-- Words of the scheduler's variables. -/
inductive Field where
  | regs (i : Fin 8) (k : Fin 13)
  | cr3 (i : Fin 8)
  | kstackTop (i : Fin 8)
  | offset (i fd : Fin 8)
  | sigPending (i : Fin 8)
  | sigHandler (i : Fin 8) (sig : Fin 32)
  | ntasks
  deriving DecidableEq

def Field.get (k : Kernel) : Field → U32
  | .regs i j => (k.task i).regs j
  | .cr3 i => (k.task i).cr3
  | .kstackTop i => (k.task i).kstackTop
  | .offset i fd => ((k.task i).files fd).offset
  | .sigPending i => (k.task i).sigPending
  | .sigHandler i sig => (k.task i).sigHandlers sig
  | .ntasks => BitVec.ofNat 32 k.sched.ntasks

def Field.put (k : Kernel) (w : U32) : Field → Kernel
  | .regs i j => k.setTask i { k.task i with regs := Function.update (k.task i).regs j w }
  | .cr3 i => k.setTask i { k.task i with cr3 := w }
  | .kstackTop i => k.setTask i { k.task i with kstackTop := w }
  | .offset i fd => k.setTask i ((k.task i).setFd fd { (k.task i).files fd with offset := w })
  | .sigPending i => k.setTask i { k.task i with sigPending := w }
  | .sigHandler i sig =>
    k.setTask i { k.task i with sigHandlers := Function.update (k.task i).sigHandlers sig w }
  | .ntasks => { k with sched := { k.sched with ntasks := w.toNat } }

theorem Field.get_put (k : Kernel) (w : U32) (f : Field) : f.get (f.put k w) = w := by
  cases f with
  | ntasks => simp [Field.get, Field.put]
  | regs i j =>
    simp only [Field.get, Field.put, Kernel.setTask_task_self]
    exact Function.update_self ..
  | sigHandler i sig =>
    simp only [Field.get, Field.put, Kernel.setTask_task_self]
    exact Function.update_self ..
  | offset i fd =>
    simp only [Field.get, Field.put, Kernel.setTask_task_self, Task.setFd]
    rw [Function.update_self]
  | _ => simp only [Field.get, Field.put, Kernel.setTask_task_self]

theorem Field.put_put (k : Kernel) (w w' : U32) (f : Field) :
    f.put (f.put k w) w' = f.put k w' := by
  cases f with
  | ntasks => rfl
  | _ =>
    simp only [Field.put, Kernel.setTask_setTask, Kernel.setTask_task_self, Task.setFd,
      Function.update_idem, Function.update_self]

/-! ## The layout -/

/-- `task_pool`; a `task_t` is 356 bytes. -/
def poolAddr : Nat := 0x110000

/-- `cur_task`, and `ntasks` behind it. -/
def curTaskAddr : Nat := 0x111000

def ntasksAddr : Nat := 0x111004

/-- The field at offset `off` of task `i`. -/
def taskField (i : Fin 8) (off : Nat) : Option Field :=
  if h : off / 4 < 13 then some (.regs i ⟨off / 4, h⟩)
  else if off = 52 then some (.cr3 i)
  else if off = 56 then some (.kstackTop i)
  else if h : 64 ≤ off ∧ off < 160 then
    if (off - 64) % 12 = 4 then some (.offset i ⟨(off - 64) / 12, by omega⟩) else none
  else if off = 168 then some (.sigPending i)
  else if h : 172 ≤ off ∧ off < 300 then some (.sigHandler i ⟨(off - 172) / 4, by omega⟩)
  else none

/-- The field whose first byte is at `pa`. -/
def fieldAt (pa : Nat) : Option Field :=
  if h : poolAddr ≤ pa ∧ pa < poolAddr + 8 * 356 then
    taskField ⟨(pa - poolAddr) / 356, by omega⟩ ((pa - poolAddr) % 356)
  else if pa = ntasksAddr then some .ntasks
  else none

/-- `w` with byte `j` replaced. -/
def setByte (w : U32) (j : Nat) (b : U8) : U32 :=
  let byte := fun n => if n = j then b else byteOf w n
  (byte 3 ++ byte 2) ++ (byte 1 ++ byte 0)

/-- A store into the image. The one pointer followed is `cur_task`, and only from task 0
to a null pointer, which its bytes 00 00 11 00 pass through without another value. -/
def pokeImage (k : Kernel) (m : Mem) (pa : Nat) (b : U8) : Option (Kernel × Mem) :=
  if pa / 4 * 4 = curTaskAddr then
    if k.sched.cur ≠ none ∧ k.sched.cur ≠ some 0 then none
    else if pa % 4 = 2 ∧ b = 0#8 then some ({ k with sched := { k.sched with cur := none } }, m)
    else if pa % 4 ≠ 2 ∧ b = 0#8 then some (k, m)
    else none
  else
    (fieldAt (pa / 4 * 4)).map fun f => (f.put k (setByte (f.get k) (pa % 4) b), m)

/-- The image from 1 MB on, the kernel stacks and the processor's tables. -/
def imageOwns (pa : Nat) : Bool :=
  (0x100000 ≤ pa && pa < 0x120000) || (0x320000 ≤ pa && pa < 0x324000) || pa < 0x1000

def wildLink : Link where
  owns := imageOwns
  peek := fun k _ m pa =>
    match fieldAt (pa / 4 * 4) with
    | some f => byteOf (f.get k) (pa % 4)
    | none => m pa
  poke := pokeImage
  behind := fun _ _ _ => 0#8

theorem imageOwns_stack (pa : Nat) (h : pa / 4096 = 0x30F) : imageOwns pa = false := by
  unfold imageOwns
  simp only [Bool.or_eq_false_iff, Bool.and_eq_false_iff, decide_eq_false_iff_not]
  omega

def wildEnv (disk : Disk) : Env where
  link := wildLink
  disk := disk
  clobber := fun _ _ _ _ => (0#32, 0#32)

/-! ## A word stored there -/

theorem byteOf_word (b0 b1 b2 b3 : U8) :
    byteOf ((b3 ++ b2) ++ (b1 ++ b0)) 0 = b0 ∧ byteOf ((b3 ++ b2) ++ (b1 ++ b0)) 1 = b1 ∧
      byteOf ((b3 ++ b2) ++ (b1 ++ b0)) 2 = b2 ∧ byteOf ((b3 ++ b2) ++ (b1 ++ b0)) 3 = b3 := by
  refine ⟨?_, ?_, ?_, ?_⟩ <;>
  · apply BitVec.eq_of_getLsbD_eq
    intro i hi
    simp only [byteOf, BitVec.getLsbD_append, BitVec.getLsbD_extractLsb', hi]
    simp only [decide_true, Bool.true_and]
    grind

/-- Its four bytes replaced one by one, a word is the new word. -/
theorem setByte_all (v w : U32) :
    setByte (setByte (setByte (setByte v 0 (byteOf w 0)) 1 (byteOf w 1)) 2 (byteOf w 2)) 3
      (byteOf w 3) = w := by
  unfold setByte
  simp only [byteOf_word, reduceIte, OfNat.ofNat_ne_zero, OfNat.zero_ne_ofNat, OfNat.ofNat_ne_one,
    OfNat.one_ne_ofNat, zero_ne_one, one_ne_zero, Nat.reduceEqDiff]
  exact bytes_eq_word w

section Stores

variable {k k' : Kernel} {mem : Mem} {cr3 va : U32} {b : U8} {f : Field}

theorem userStore_poke {pa : Nat} (htr : translate mem cr3 va = some pa) (hown : imageOwns pa = true)
    (hpoke : pokeImage k mem pa b = some (k', mem)) :
    userStore wildLink cr3 (k, mem) va b = .ok (k', mem) := by
  unfold userStore
  simp only [htr]
  rw [if_pos (by rw [show wildLink.owns pa = true from hown, Bool.true_or])]
  simp only [show wildLink.poke k mem pa b = some (k', mem) from hpoke]

theorem pokeImage_field {pa j : Nat} (hpa : pa % 4 = 0) (hj : j < 4) (hne : pa ≠ curTaskAddr)
    (hf : fieldAt pa = some f) :
    pokeImage k mem (pa + j) b = some (f.put k (setByte (f.get k) j b), mem) := by
  have hq : (pa + j) / 4 * 4 = pa := by omega
  have hr : (pa + j) % 4 = j := by omega
  unfold pokeImage
  rw [hq, hr, if_neg hne, hf]
  rfl

/-- An address of the image, seen through directory `cr3`. -/
structure Reaches (mem : Mem) (cr3 va : U32) : Prop where
  aligned : va.toNat % 4 = 0
  owned : ∀ j, j < 4 → imageOwns (va.toNat + j) = true
  mapped : ∀ j, j < 4 → translate mem cr3 (va + BitVec.ofNat 32 j) = some (va.toNat + j)

/-- **A word stored to a field of the scheduler.** -/
theorem wild_store32 (h : Reaches mem cr3 va) (hne : va.toNat ≠ curTaskAddr)
    (hf : fieldAt va.toNat = some f) (w : U32) :
    userStore32 wildLink cr3 (k, mem) va w = .ok (f.put k w, mem) := by
  have hstep : ∀ (k : Kernel) (j : Nat) (b : U8), j < 4 →
      userStore wildLink cr3 (k, mem) (va + BitVec.ofNat 32 j) b =
        .ok (f.put k (setByte (f.get k) j b), mem) :=
    fun k j b hj => userStore_poke (h.mapped j hj) (h.owned j hj)
      (pokeImage_field h.aligned hj hne hf)
  have h0 := hstep k 0 (byteOf w 0) (by omega)
  rw [show va + BitVec.ofNat 32 0 = va from BitVec.add_zero va] at h0
  have hall := userStore32_of h0 (hstep _ 1 _ (by omega)) (hstep _ 2 _ (by omega))
    (hstep _ 3 _ (by omega))
  rw [hall]
  simp only [Field.get_put, Field.put_put, setByte_all]

/-- A null pointer stored to `cur_task` while task 0 runs. -/
theorem wild_null (h : Reaches mem cr3 va) (hva : va.toNat = curTaskAddr)
    (hcur : k.sched.cur = some 0) : userStore32 wildLink cr3 (k, mem) va 0#32 =
      .ok ({ k with sched := { k.sched with cur := none } }, mem) := by
  have hq : ∀ j, j < 4 → (curTaskAddr + j) / 4 * 4 = curTaskAddr ∧ (curTaskAddr + j) % 4 = j := by
    intro j hj
    unfold curTaskAddr
    omega
  have hkeep : ∀ (k' : Kernel) (j : Nat), j < 4 → j ≠ 2 →
      (k'.sched.cur = some 0 ∨ k'.sched.cur = none) →
      userStore wildLink cr3 (k', mem) (va + BitVec.ofNat 32 j) (byteOf 0#32 j) =
        .ok (k', mem) := by
    intro k' j hj h2 hc
    refine userStore_poke (h.mapped j hj) (h.owned j hj) ?_
    unfold pokeImage
    rw [hva, (hq j hj).1, (hq j hj).2, if_pos rfl, byteOf_zero, if_neg (by tauto),
      if_neg (fun e => h2 e.1), if_pos ⟨h2, rfl⟩]
  have hnull : userStore wildLink cr3 (k, mem) (va + 2#32) (byteOf 0#32 2) =
      .ok ({ k with sched := { k.sched with cur := none } }, mem) := by
    refine userStore_poke (h.mapped 2 (by omega)) (h.owned 2 (by omega)) ?_
    unfold pokeImage
    rw [hva, (hq 2 (by omega)).1, (hq 2 (by omega)).2, if_pos rfl, byteOf_zero,
      if_neg (by rw [hcur]; simp), if_pos ⟨rfl, rfl⟩]
  have h0 := hkeep k 0 (by omega) (by omega) (.inl hcur)
  rw [show va + BitVec.ofNat 32 0 = va from BitVec.add_zero va] at h0
  exact userStore32_of h0 (hkeep k 1 (by omega) (by omega) (.inl hcur)) hnull
    (hkeep _ 3 (by omega) (by omega) (.inr rfl))

end Stores

/-- The image, seen from task A. -/
theorem Demo.reaches {e : Ext2} {m : Machine} (hd : Demo e m) {X : Nat} (h4 : X % 4 = 0)
    (hlo : 0x110000 ≤ X) (hhi : X < 0x112000) : Reaches m.mem taskAPdAddr (BitVec.ofNat 32 X) := by
  have hX : (BitVec.ofNat 32 X).toNat = X := by
    rw [BitVec.toNat_ofNat]
    omega
  refine ⟨by rw [hX]; exact h4, fun j hj => ?_, fun j hj => ?_⟩
  · rw [hX]
    unfold imageOwns
    simp only [Bool.or_eq_true, Bool.and_eq_true, decide_eq_true_eq]
    omega
  · have hadd : (BitVec.ofNat 32 X + BitVec.ofNat 32 j).toNat = X + j := by
      rw [BitVec.toNat_add, BitVec.toNat_ofNat, BitVec.toNat_ofNat]
      omega
    have hlow := hd.low (v := BitVec.ofNat 32 X + BitVec.ofNat 32 j)
      (by rw [hadd]; unfold identityTop; omega)
    rw [hlow, hadd, hX]

end PepinOS
