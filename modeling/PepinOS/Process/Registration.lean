import PepinOS.Process.Scheduler

/-!
# Registering any number of tasks

`sched_add_task` takes `&task_pool[ntasks]` and asks nobody how long `task_pool` is. Here
the elements are counted on past the end of the array, and every call says where it
stores (`Registry.stores`, complete by `addTask_stores`): once a place past the end is
among them, the memory of other variables is written, and what they hold afterwards is
no longer told. `schedAddTask` stops there (`schedAddTask_agrees`).

`registration_safe_iff`: eight calls are safe, and no more.
-/

namespace PepinOS

/-- The arguments of `sched_add_task`. -/
structure TaskArgs where
  eip : U32
  cs : U32
  eflags : U32
  userEsp : U32
  ss : U32
  cr3 : U32
  kstackTop : U32

def TaskArgs.task (a : TaskArgs) : Task :=
  newTask a.eip a.cs a.eflags a.userEsp a.ss a.cr3 a.kstackTop

/-- `&task_list`, or `&task_pool[i].list`. -/
inductive RegNode where
  | head
  | task (i : Nat)
  deriving DecidableEq

/-- The static variables, the pool without an end. -/
structure Registry where
  pool : Nat → Task
  links : Links RegNode
  ntasks : Nat
  cur : Option Nat

/-- Where `sched_add_task` stores. -/
inductive Place where
  | task (i : Nat)
  | node (n : RegNode)
  | ntasks
  | curTask

/-- The place is one of the scheduler's own. -/
def Place.InPool : Place → Prop
  | .task i => i < maxTasks
  | .node (.task i) => i < maxTasks
  | _ => True

namespace Registry

/-- `sched_add_task`. -/
def addTask (r : Registry) (a : TaskArgs) : Registry where
  pool := Function.update r.pool r.ntasks a.task
  links := listAddTail r.links .head (.task r.ntasks)
  ntasks := r.ntasks + 1
  cur := if r.ntasks = 0 then some r.ntasks else r.cur

/-- Its stores, in order. -/
def stores (r : Registry) : List Place :=
  [.task r.ntasks, .node .head, .node (.task r.ntasks), .node (r.links .head).prev] ++
    (if r.ntasks = 0 then [.curTask] else []) ++ [.ntasks]

/-- One call after another. -/
def addTasks (r : Registry) (calls : List TaskArgs) : Registry := calls.foldl addTask r

/-- The stores of all the calls. -/
def allStores : Registry → List TaskArgs → List Place
  | _, [] => []
  | r, a :: calls => r.stores ++ allStores (r.addTask a) calls

/-- Before the first call. -/
def empty (pool : Nat → Task) : Registry where
  pool := pool
  links := listInit (fun _ => ⟨.head, .head⟩) .head
  ntasks := 0
  cur := none

end Registry

/-- What the calls are to leave: each task once in the circle, in order, the first running. -/
structure Registers (calls : List TaskArgs) (r : Registry) : Prop where
  ntasks : r.ntasks = calls.length
  ring : Ring r.links .head ((List.range calls.length).map .task)
  pool : ∀ i a, calls[i]? = some a → r.pool i = a.task
  cur : r.cur = if calls = [] then none else some 0

/-- In every state on the way the list is the tasks registered so far, there are no more
than the pool holds, and no call has stored outside. -/
def RegistrationSafe (pool : Nat → Task) (calls : List TaskArgs) : Prop :=
  (∀ p ∈ (Registry.empty pool).allStores calls, p.InPool) ∧
  ∀ n, n ≤ calls.length →
    Registers (calls.take n) ((Registry.empty pool).addTasks (calls.take n)) ∧
    ((Registry.empty pool).addTasks (calls.take n)).ntasks ≤ maxTasks

/-! ## One call -/

/-- What is not among the stores of a call stays as it was. -/
theorem addTask_stores (r : Registry) (a : TaskArgs) :
    (∀ i, Place.task i ∉ r.stores → (r.addTask a).pool i = r.pool i) ∧
    (∀ n, Place.node n ∉ r.stores → (r.addTask a).links n = r.links n) ∧
    (Place.curTask ∉ r.stores → (r.addTask a).cur = r.cur) := by
  refine ⟨fun i hi => ?_, fun n hn => ?_, fun hc => ?_⟩
  · apply Function.update_of_ne
    intro heq
    apply hi
    simp [Registry.stores, heq]
  · apply listInsert_other
    · intro heq
      apply hn
      simp [Registry.stores, heq]
    · intro heq
      apply hn
      simp [Registry.stores, heq]
    · intro heq
      apply hn
      simp [Registry.stores, heq]
  · apply if_neg
    intro hz
    apply hc
    simp [Registry.stores, hz]

theorem Registers.empty (pool : Nat → Task) : Registers [] (Registry.empty pool) where
  ntasks := rfl
  ring := listInit_ring _ _
  pool := fun i a h => by cases h
  cur := rfl

/-- The next call, wherever its element lies. -/
theorem Registers.addTask {calls : List TaskArgs} {r : Registry} (h : Registers calls r)
    (a : TaskArgs) : Registers (calls ++ [a]) (r.addTask a) := by
  have hlen : (calls ++ [a]).length = calls.length + 1 := by
    rw [List.length_append, List.length_singleton]
  refine ⟨?_, ?_, fun i b hi => ?_, ?_⟩
  · rw [hlen, ← h.ntasks]
    rfl
  · rw [hlen, List.range_succ, List.map_append, List.map_singleton]
    show Ring (listAddTail r.links .head (.task r.ntasks)) _ _
    rw [h.ntasks]
    apply listAddTail_ring h.ring
    intro hm
    rcases List.mem_cons.mp hm with heq | hm
    · cases heq
    · obtain ⟨i, hi, heq⟩ := List.mem_map.mp hm
      cases heq
      exact absurd (List.mem_range.mp hi) (Nat.lt_irrefl _)
  · show Function.update r.pool r.ntasks a.task i = b.task
    by_cases hlast : i = calls.length
    · rw [hlast, List.getElem?_concat_length] at hi
      cases hi
      rw [hlast, ← h.ntasks, Function.update_self]
    · have hlt : i < calls.length := by
        have := (List.getElem?_eq_some_iff.mp hi).1
        omega
      rw [List.getElem?_append_left hlt] at hi
      rw [Function.update_of_ne (by rw [h.ntasks]; exact hlast)]
      exact h.pool i b hi
  · have hne : calls ++ [a] ≠ [] := List.append_ne_nil_of_right_ne_nil _ (List.cons_ne_nil a [])
    rw [if_neg hne]
    show (if r.ntasks = 0 then some r.ntasks else r.cur) = some 0
    by_cases hz : r.ntasks = 0
    · rw [if_pos hz, hz]
    · rw [if_neg hz, h.cur, if_neg]
      intro hnil
      rw [h.ntasks, hnil] at hz
      exact hz rfl

/-- A call stores to the next element, to its node and to the nodes beside it. -/
theorem Registers.stores {calls : List TaskArgs} {r : Registry} (h : Registers calls r) :
    (∀ p ∈ r.stores, p.InPool) ↔ calls.length < maxTasks := by
  have hprev := h.ring.prev_mem (List.mem_cons_self ..)
  rw [← h.ntasks]
  constructor
  · intro hall
    exact hall (.task r.ntasks) (List.mem_cons_self ..)
  · intro hlt p hp
    have hnode : ∀ n, n = (r.links .head).prev → (Place.node n).InPool := by
      intro n hn
      rw [← hn] at hprev
      rcases List.mem_cons.mp hprev with hhead | hm
      · rw [hhead]
        trivial
      · obtain ⟨i, hi, heq⟩ := List.mem_map.mp hm
        rw [← heq]
        have hi' := List.mem_range.mp hi
        rw [← h.ntasks] at hi'
        exact Nat.lt_trans hi' hlt
    unfold Registry.stores at hp
    rcases List.mem_append.mp hp with hp | hp
    · rcases List.mem_append.mp hp with hp | hp
      · rcases List.mem_cons.mp hp with rfl | hp
        · exact hlt
        rcases List.mem_cons.mp hp with rfl | hp
        · trivial
        rcases List.mem_cons.mp hp with rfl | hp
        · exact hlt
        · rw [List.mem_singleton.mp hp]
          exact hnode _ rfl
      · split at hp
        next =>
          rw [List.mem_singleton.mp hp]
          trivial
        next => cases hp
    · rw [List.mem_singleton.mp hp]
      trivial

/-! ## The pool of eight -/

def ListNode.reg : ListNode → RegNode
  | .head => .head
  | .task i => .task i.val

theorem ListNode.reg_injective : Function.Injective ListNode.reg := by
  intro m n h
  cases m with
  | head =>
    cases n with
    | head => rfl
    | task j => cases h
  | task i =>
    cases n with
    | head => cases h
    | task j => exact congrArg ListNode.task (Fin.ext (RegNode.task.inj h))

/-- The scheduler's variables, with the pool as long as it is. -/
structure Registry.Agrees (r : Registry) (s : Sched) : Prop where
  pool : ∀ i : Fin 8, r.pool i.val = s.pool i
  links : Renames ListNode.reg s.links r.links
  ntasks : r.ntasks = s.ntasks
  cur : r.cur = s.cur.map Fin.val

theorem Registry.empty_agrees (pool : Nat → Task) :
    (Registry.empty pool).Agrees (emptySched fun i => pool i.val) where
  pool := fun _ => rfl
  links := by
    have hblank : Renames ListNode.reg (fun _ => ⟨.head, .head⟩) (fun _ => ⟨.head, .head⟩) :=
      fun _ => rfl
    exact (hblank.setNext ListNode.reg_injective .head .head).setPrev ListNode.reg_injective _ _
  ntasks := rfl
  cur := rfl

/-- **`schedAddTask` is the call** as long as it stores inside, and stops when it does not. -/
theorem schedAddTask_agrees {r : Registry} {s : Sched} (h : r.Agrees s) (a : TaskArgs) :
    match schedAddTask s a.eip a.cs a.eflags a.userEsp a.ss a.cr3 a.kstackTop with
    | some s' => (r.addTask a).Agrees s'
    | none => ∃ p ∈ r.stores, ¬p.InPool := by
  unfold schedAddTask
  by_cases hlt : s.ntasks < 8
  · rw [dif_pos hlt]
    have hnode : (ListNode.task ⟨s.ntasks, hlt⟩).reg = .task r.ntasks := by
      rw [h.ntasks]
      rfl
    refine ⟨fun i => ?_, ?_, ?_, ?_⟩
    · show Function.update r.pool r.ntasks a.task i.val =
        Function.update s.pool ⟨s.ntasks, hlt⟩ a.task i
      by_cases hi : i.val = r.ntasks
      · have hlast : i = ⟨s.ntasks, hlt⟩ := Fin.ext (hi.trans h.ntasks)
        rw [hi, Function.update_self, hlast, Function.update_self]
      · have hother : i ≠ ⟨s.ntasks, hlt⟩ := by
          intro heq
          rw [heq] at hi
          exact hi h.ntasks.symm
        rw [Function.update_of_ne hi, Function.update_of_ne hother, h.pool]
    · have hadd := h.links.addTail ListNode.reg_injective .head (.task ⟨s.ntasks, hlt⟩)
      rw [hnode] at hadd
      exact hadd
    · exact congrArg (· + 1) h.ntasks
    · show (if r.ntasks = 0 then some r.ntasks else r.cur) =
        (if s.ntasks = 0 then some (⟨s.ntasks, hlt⟩ : Fin 8) else s.cur).map Fin.val
      rw [h.ntasks, h.cur]
      split <;> rfl
  · rw [dif_neg hlt]
    refine ⟨.task r.ntasks, List.mem_cons_self .., ?_⟩
    rw [h.ntasks]
    exact hlt

/-! ## All the calls -/

theorem addTasks_registers {pool : Nat → Task} (calls : List TaskArgs) :
    Registers calls ((Registry.empty pool).addTasks calls) := by
  induction calls using List.reverseRecOn with
  | nil => exact .empty pool
  | append_singleton calls a ih =>
    unfold Registry.addTasks
    rw [List.foldl_append]
    exact ih.addTask a

/-- The stores of the calls that follow. -/
theorem Registers.allStores : ∀ {more calls : List TaskArgs} {r : Registry}, Registers calls r →
    calls.length + more.length ≤ maxTasks → ∀ p ∈ r.allStores more, p.InPool := by
  intro more
  induction more with
  | nil =>
    intro _ _ _ _ p hp
    cases hp
  | cons a more ih =>
    intro calls r h hle p hp
    rw [List.length_cons] at hle
    rcases List.mem_append.mp hp with hp | hp
    · exact h.stores.mpr (by omega) p hp
    · apply ih (h.addTask a) _ p hp
      rw [List.length_append, List.length_singleton]
      omega

/-- With more calls than elements, one of them stores behind the last element. -/
theorem Registers.overruns : ∀ {more calls : List TaskArgs} {r : Registry}, Registers calls r →
    calls.length ≤ maxTasks → maxTasks < calls.length + more.length →
      .task maxTasks ∈ r.allStores more := by
  intro more
  induction more with
  | nil =>
    intro calls r _ hle hlt
    rw [List.length_nil] at hlt
    omega
  | cons a more ih =>
    intro calls r h hle hlt
    rw [List.length_cons] at hlt
    unfold Registry.allStores
    by_cases hfull : calls.length = maxTasks
    · apply List.mem_append_left
      rw [← hfull, ← h.ntasks]
      exact List.mem_cons_self ..
    · apply List.mem_append_right
      apply ih (h.addTask a)
      · rw [List.length_append, List.length_singleton]
        omega
      · rw [List.length_append, List.length_singleton]
        omega

/-- **Registration is safe** for as many calls as the pool has elements. -/
theorem registration_safe_iff (pool : Nat → Task) (calls : List TaskArgs) :
    RegistrationSafe pool calls ↔ calls.length ≤ maxTasks := by
  constructor
  · intro h
    by_contra hmore
    have hstray : .task maxTasks ∈ (Registry.empty pool).allStores calls :=
      (Registers.empty pool).overruns (Nat.zero_le _) (by rw [List.length_nil]; omega)
    exact absurd (h.1 _ hstray) (Nat.lt_irrefl maxTasks)
  · intro hle
    refine ⟨(Registers.empty pool).allStores (by rw [List.length_nil]; omega), fun n hn => ?_⟩
    refine ⟨addTasks_registers _, ?_⟩
    rw [(addTasks_registers _).ntasks, List.length_take]
    omega

/-- The ninth call stores past the end of the pool. -/
theorem ninth_call_overruns : ∃ pool calls, calls.length = 9 ∧
    Place.task 8 ∈ (Registry.empty pool).allStores calls ∧ ¬RegistrationSafe pool calls := by
  let a : TaskArgs := ⟨0x40000000#32, 0x23#32, 0x202#32, 0x40100FF0#32, 0x33#32, 0#32, 0#32⟩
  have hmem : Place.task 8 ∈ (Registry.empty fun _ => a.task).allStores (List.replicate 9 a) :=
    (Registers.empty _).overruns (Nat.zero_le _) (Nat.le_refl 9)
  refine ⟨fun _ => a.task, List.replicate 9 a, rfl, hmem, fun hsafe => ?_⟩
  exact absurd (hsafe.1 _ hmem) (Nat.lt_irrefl 8)

end PepinOS
