import PepinOS.Lib.Types
import PepinOS.Lib.List

/-!
# Tasks and the round-robin list

The data of `process/scheduler.c`: the static pool of tasks, the circular list
that links them in registration order, the running task. `sched_add_task` and
`sched_signal` are here; `do_switch`, which also moves the CPU, follows in
`Process.Switch`.

The `list_head` embedded in `task_pool[i]` is the node `.task i` and the
sentinel `task_list` is `.head`, so `list_entry` is reading the index back out
of a node; on the sentinel there is nothing to read. `SchedInv` says the list
is the ring of the registered tasks, whence `next_task`: the walk of
`do_switch` (one step, and one more over the sentinel) always lands on a task.
-/

namespace PepinOS

def maxTasks : Nat := 8
def nsig : Nat := 32

/-- `SIGINT`, what Ctrl+C raises. -/
def sigint : Int := 2

-- constants, so that an index literal is the same term in every module
instance neZeroMaxTasks : NeZero 8 := ⟨nofun⟩

instance neZeroNsig : NeZero 32 := ⟨nofun⟩

instance neZeroRegs : NeZero 13 := ⟨nofun⟩

/-- `u32 regs[13]`: the pusha frame and the iret frame above it. -/
abbrev Ctx := Fin 13 → U32

/-- `fd_t`. The pointer into `node_pool` is the index it points to. -/
structure Fd where
  node : Option (Fin 8)
  offset : U32
  used : Bool

/-- `task_t`, its list node apart. -/
structure Task where
  regs : Ctx
  cr3 : U32
  kstackTop : U32
  active : Bool
  files : Fin 8 → Fd
  sigPending : U32
  sigHandlers : Fin 32 → U32
  sigSavedRegs : Ctx
  sigInHandler : Bool

/-- The address of a `list_head`: the sentinel, or the one inside a task. -/
inductive ListNode where
  | head
  | task (i : Fin 8)
  deriving DecidableEq

/-- `list_entry(node, task_t, list)`. -/
def listEntry : ListNode → Option (Fin 8)
  | .head => none
  | .task i => some i

/-- The static variables of `scheduler.c`. -/
structure Sched where
  pool : Fin 8 → Task
  links : Links ListNode
  ntasks : Nat
  cur : Option (Fin 8)

/-- `task_pool[i] = t`. -/
def Sched.setTask (s : Sched) (i : Fin 8) (t : Task) : Sched :=
  { s with pool := Function.update s.pool i t }

/-- A freshly registered task. -/
def newTask (eip cs eflags userEsp ss cr3 kstackTop : U32) : Task where
  regs := fun i =>
    if i = 8 then eip else if i = 9 then cs else if i = 10 then eflags
    else if i = 11 then userEsp else if i = 12 then ss else 0#32
  cr3 := cr3
  kstackTop := kstackTop
  active := true
  files := fun _ => { node := none, offset := 0#32, used := false }
  sigPending := 0#32
  sigHandlers := fun _ => 0#32
  sigSavedRegs := fun _ => 0#32
  sigInHandler := false

/-- `sched_add_task`. Nothing guards the end of `task_pool`: with `MAX_TASKS`
tasks registered the call writes past the array, which is `none` here. -/
def schedAddTask (s : Sched) (eip cs eflags userEsp ss cr3 kstackTop : U32) : Option Sched :=
  if h : s.ntasks < 8 then
    let i : Fin 8 := ⟨s.ntasks, h⟩
    some {
      pool := Function.update s.pool i (newTask eip cs eflags userEsp ss cr3 kstackTop)
      links := listAddTail s.links .head (.task i)
      ntasks := s.ntasks + 1
      cur := if s.ntasks = 0 then some i else s.cur }
  else none

/-- `sched_signal`; `signum` is a C `int`. -/
def schedSignal (s : Sched) (signum : Int) : Sched :=
  match s.cur with
  | none => s
  | some i =>
    if signum ≤ 0 ∨ signum ≥ nsig then s
    else s.setTask i
      { s.pool i with sigPending := (s.pool i).sigPending ||| (1#32 <<< signum.toNat) }

/-- Before `sched_add_task` is ever called: `LIST_HEAD(task_list)`, no task. -/
def emptySched (pool : Fin 8 → Task) : Sched where
  pool := pool
  links := listInit (fun _ => ⟨.head, .head⟩) .head
  ntasks := 0
  cur := none

@[simp] theorem setTask_pool_self (s : Sched) (i : Fin 8) (t : Task) :
    (s.setTask i t).pool i = t := Function.update_self ..

theorem setTask_pool_ne (s : Sched) {i j : Fin 8} (t : Task) (h : j ≠ i) :
    (s.setTask i t).pool j = s.pool j := Function.update_of_ne h ..

@[simp] theorem setTask_links (s : Sched) (i : Fin 8) (t : Task) :
    (s.setTask i t).links = s.links := rfl

@[simp] theorem setTask_ntasks (s : Sched) (i : Fin 8) (t : Task) :
    (s.setTask i t).ntasks = s.ntasks := rfl

@[simp] theorem setTask_cur (s : Sched) (i : Fin 8) (t : Task) :
    (s.setTask i t).cur = s.cur := rfl

/-- What the new value of a task leaves as it was, no task loses. -/
theorem setTask_frame {α : Type} (F : Task → α) {s : Sched} {i : Fin 8} {t : Task}
    (h : F t = F (s.pool i)) (j : Fin 8) : F ((s.setTask i t).pool j) = F (s.pool j) := by
  by_cases hj : j = i
  · rw [hj, setTask_pool_self, h]
  · rw [setTask_pool_ne s t hj]

/-! ## The list of registered tasks -/

/-- The nodes of the first `n` tasks, in registration order. -/
def taskNodes (n : Nat) : List ListNode := ((List.finRange 8).take n).map .task

theorem taskNodes_length {n : Nat} (h : n ≤ 8) : (taskNodes n).length = n := by
  simp [taskNodes, h]

theorem taskNodes_getElem {n i : Nat} (hi : i < (taskNodes n).length) (h8 : i < 8) :
    (taskNodes n)[i] = .task ⟨i, h8⟩ := by
  simp [taskNodes]

theorem taskNodes_succ {n : Nat} (h : n < 8) :
    taskNodes (n + 1) = taskNodes n ++ [.task ⟨n, h⟩] := by
  unfold taskNodes
  rw [List.take_add_one, List.map_append, List.getElem?_eq_getElem (by simpa using h)]
  simp

theorem mem_taskNodes {n : Nat} {i : Fin 8} : .task i ∈ taskNodes n ↔ i.val < n := by
  unfold taskNodes
  rw [List.mem_map]
  constructor
  · rintro ⟨j, hj, e⟩
    obtain ⟨k, hk, hkj⟩ := List.mem_take_iff_getElem.mp hj
    cases e
    rw [← hkj, List.getElem_finRange]
    show k < n
    omega
  · intro hi
    refine ⟨i, List.mem_take_iff_getElem.mpr ⟨i.val, ?_, by simp⟩, rfl⟩
    rw [List.length_finRange]
    omega

/-- What holds of the scheduler's variables between calls: the list is the ring
of the registered tasks, and the running task is one of them (or there is none). -/
structure SchedInv (s : Sched) : Prop where
  le : s.ntasks ≤ maxTasks
  ring : Ring s.links .head (taskNodes s.ntasks)
  cur_lt : ∀ i, s.cur = some i → i.val < s.ntasks
  cur_some : 0 < s.ntasks → s.cur.isSome

theorem emptySched_inv (pool : Fin 8 → Task) : SchedInv (emptySched pool) where
  le := Nat.zero_le _
  ring := listInit_ring _ _
  cur_lt := fun i h => by cases h
  cur_some := fun h => absurd h (Nat.lt_irrefl 0)

/-- Only the list, the count and the running task matter to it. -/
theorem SchedInv.congr {s s' : Sched} (h : SchedInv s) (hl : s'.links = s.links)
    (hn : s'.ntasks = s.ntasks) (hc : ∀ i, s'.cur = some i → i.val < s.ntasks)
    (hsome : s.cur.isSome → s'.cur.isSome) : SchedInv s' where
  le := by rw [hn]; exact h.le
  ring := by rw [hl, hn]; exact h.ring
  cur_lt := by rw [hn]; exact hc
  cur_some := fun hpos => hsome (h.cur_some (by rw [← hn]; exact hpos))

theorem SchedInv.setTask {s : Sched} (h : SchedInv s) (i : Fin 8) (t : Task) :
    SchedInv (s.setTask i t) :=
  h.congr rfl rfl h.cur_lt id

/-- Below `MAX_TASKS` registration succeeds and fills the next slot. -/
theorem schedAddTask_some {s : Sched} (h : s.ntasks < maxTasks)
    (eip cs eflags userEsp ss cr3 kstackTop : U32) :
    ∃ s', schedAddTask s eip cs eflags userEsp ss cr3 kstackTop = some s' ∧
      s'.ntasks = s.ntasks + 1 ∧ s'.pool =
        Function.update s.pool ⟨s.ntasks, h⟩ (newTask eip cs eflags userEsp ss cr3 kstackTop) := by
  have h8 : s.ntasks < 8 := h
  unfold schedAddTask
  rw [dif_pos h8]
  exact ⟨_, rfl, rfl, rfl⟩

/-- What a registration that happened has done. -/
theorem schedAddTask_cases {s s' : Sched} {eip cs eflags userEsp ss cr3 kstackTop : U32}
    (hadd : schedAddTask s eip cs eflags userEsp ss cr3 kstackTop = some s') :
    ∃ h : s.ntasks < maxTasks, s'.ntasks = s.ntasks + 1 ∧ s'.pool =
      Function.update s.pool ⟨s.ntasks, h⟩ (newTask eip cs eflags userEsp ss cr3 kstackTop) := by
  unfold schedAddTask at hadd
  split at hadd
  next h =>
    cases hadd
    exact ⟨h, rfl, rfl⟩
  next => cases hadd

/-- Registration keeps the list: the new task goes in before the sentinel. -/
theorem schedAddTask_inv {s s' : Sched} {eip cs eflags userEsp ss cr3 kstackTop : U32}
    (h : SchedInv s) (hadd : schedAddTask s eip cs eflags userEsp ss cr3 kstackTop = some s') :
    SchedInv s' ∧ s'.ntasks = s.ntasks + 1 := by
  unfold schedAddTask at hadd
  split at hadd
  next hlt =>
    cases hadd
    refine ⟨⟨hlt, ?_, ?_, ?_⟩, rfl⟩
    · show Ring (listAddTail s.links .head (.task ⟨s.ntasks, hlt⟩)) .head
        (taskNodes (s.ntasks + 1))
      rw [taskNodes_succ hlt]
      refine listAddTail_ring h.ring fun hm => ?_
      rcases List.mem_cons.mp hm with e | hm
      · cases e
      · exact absurd (mem_taskNodes.mp hm) (Nat.lt_irrefl _)
    · intro i hi
      have hi' : (if s.ntasks = 0 then some ⟨s.ntasks, hlt⟩ else s.cur) = some i := hi
      show i.val < s.ntasks + 1
      split at hi'
      next => cases hi'; exact Nat.lt_succ_self _
      next => exact Nat.lt_succ_of_lt (h.cur_lt i hi')
    · intro _
      show (if s.ntasks = 0 then some (⟨s.ntasks, hlt⟩ : Fin 8) else s.cur).isSome
      split
      next => rfl
      next hne => exact h.cur_some (by omega)
  next => cases hadd

/-! ## The successor in the ring -/

/-- The node `do_switch` moves to from a task: the next one, the sentinel
skipped. -/
def nextNode (s : Sched) (i : Fin 8) : ListNode :=
  let node := (s.links (.task i)).next
  if node = .head then (s.links node).next else node

/-- **The walk lands on a task**: the one after `i` in registration order, or
the first when `i` is the last. -/
theorem next_task {s : Sched} (h : SchedInv s) {i : Fin 8} (hi : i.val < s.ntasks) :
    ∃ j : Fin 8, nextNode s i = .task j ∧ j.val = (i.val + 1) % s.ntasks := by
  have hle : s.ntasks ≤ 8 := h.le
  have hlen := taskNodes_length hle
  obtain ⟨hc, _⟩ := h.ring
  have hfirst := chain_next hc 0 (by simp)
  have hnext := chain_next hc (i.val + 1) (by simp [hlen, hi])
  rw [List.getElem_cons_zero, dif_pos (by omega), taskNodes_getElem _ (by omega)] at hfirst
  rw [List.getElem_cons_succ, taskNodes_getElem _ i.isLt] at hnext
  unfold nextNode
  by_cases hlast : i.val + 1 < s.ntasks
  · rw [dif_pos (by omega), taskNodes_getElem _ (by omega)] at hnext
    refine ⟨⟨i.val + 1, by omega⟩, ?_, (Nat.mod_eq_of_lt hlast).symm⟩
    simp only [hnext, reduceCtorEq, if_false]
  · rw [dif_neg (by omega)] at hnext
    refine ⟨⟨0, by omega⟩, ?_, ?_⟩
    · simp only [hnext, if_true]
      exact hfirst
    · rw [show i.val + 1 = s.ntasks by omega, Nat.mod_self]

end PepinOS
