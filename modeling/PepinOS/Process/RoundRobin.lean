import Mathlib.Order.Interval.Multiset
import PepinOS.Process.Privilege

/-!
# Round robin

`do_switch` walks the ring of tasks by one node at each tick from ring 3. Between
two such ticks anything may happen, but nothing moves `cur_task`, so the number
of ticks alone says whose turn it is: after `k` of them it is task `k mod n`.

The turns of a run are read off its history, the newest first, and `InOrder` is
the law they follow. The list itself, and why the walk never stops at the
sentinel, is `next_task`.
-/

namespace PepinOS

/-- The task a tick gave the processor to. -/
def Event.resumed : Event → Option (Fin 8)
  | .switched _ into _ _ _ => some into
  | _ => none

/-- A key press gives the processor to nobody. -/
theorem keyEvent_resumed (k : Kernel) (scancode : U8) : (keyEvent k scancode).resumed = none := by
  rcases keyed_cases k scancode with ⟨he, _⟩ | ⟨i, _, he, _⟩
  · rw [he]
    rfl
  · rw [he]
    rfl

/-- The tasks resumed by the ticks of a history, the newest first. -/
def turns (h : List Event) : List (Fin 8) := h.filterMap Event.resumed

/-- Each turn is that of the task its number says, counting from task 0 before the first. -/
def InOrder (n : Nat) : List (Fin 8) → Prop
  | [] => True
  | t :: ts => t.val = (ts.length + 1) % n ∧ InOrder n ts

theorem turns_append (h2 h1 : List Event) : turns (h2 ++ h1) = turns h2 ++ turns h1 :=
  List.filterMap_append

/-- The turns `a + 1, …, a + k`, taken modulo `n`. -/
theorem InOrder.vals {n : Nat} {l1 : List (Fin 8)} : ∀ l2, InOrder n (l2 ++ l1) →
    l2.map Fin.val = ((List.range' (l1.length + 1) l2.length).map (· % n)).reverse := by
  intro l2
  induction l2 with
  | nil => exact fun _ => rfl
  | cons t l2 ih =>
    rintro ⟨ht, hrest⟩
    have ht : t.val = (l2.length + l1.length + 1) % n := by rwa [← List.length_append]
    rw [List.length_cons, List.range'_1_concat, List.map_append, List.reverse_append,
      List.map_cons, ih hrest, ht]
    rw [show l2.length + l1.length + 1 = l1.length + 1 + l2.length by omega]
    rfl

/-- In `n` turns in a row each of `n` tasks has exactly one. -/
theorem InOrder.count {n : Nat} {l1 l2 : List (Fin 8)} (h : InOrder n (l2 ++ l1))
    (hlen : l2.length = n) {t : Fin 8} (ht : t.val < n) : l2.count t = 1 := by
  have hvals := h.vals
  have hcount : (l2.map Fin.val).count t.val = 1 := by
    rw [hvals, List.count_reverse, ← Multiset.coe_count, ← Multiset.map_coe]
    have hico : (List.range' (l1.length + 1) n : Multiset Nat) =
        Multiset.Ico (l1.length + 1) (l1.length + 1 + n) := by
      show _ = (Finset.Ico (l1.length + 1) (l1.length + 1 + n)).val
      rw [Nat.Ico_eq_range', Nat.add_sub_cancel_left]
    rw [hlen, hico, Nat.multiset_Ico_map_mod]
    exact Multiset.count_eq_one_of_mem (Multiset.nodup_range n) (Multiset.mem_range.mpr ht)
  rwa [List.count_map_of_injective _ _ Fin.val_injective] at hcount

/-! ## One tick -/

section Tick

variable {l : Link} {k : Kernel} {cr3 : U32} {mem : Mem} {ctx : Ctx} {i : Fin 8}

/-- A tick from ring 3 gives the processor to the next task of the ring, -/
theorem doSwitch_next (hinv : SchedInv k.sched) (hcur : k.sched.cur = some i)
    (hring : rpl (ctx 9) ≠ 0#32) {s : Switched} (h : doSwitch l.guarded k cr3 mem ctx = .ok s) :
    ∃ j, s.ev.resumed = some j ∧ s.kern.sched.cur = some j ∧
      j.val = (i.val + 1) % k.sched.ntasks := by
  rcases doSwitch_cases h with ⟨h0, _⟩ | ⟨i', j, hi', hj, hdone⟩
  · rcases h0 with h0 | h0
    · rw [hcur] at h0
      cases h0
    · exact absurd h0 hring
  · rw [hcur] at hi'
    cases hi'
    obtain ⟨j', hj', hval⟩ := next_task hinv (hinv.cur_lt i hcur)
    rw [hj] at hj'
    cases hj'
    refine ⟨j, ?_, hdone.spec.1, hval⟩
    cases hdone <;> rfl

/-- also when its signal frame faults. -/
theorem doSwitch_next_fault (hinv : SchedInv k.sched) (hcur : k.sched.cur = some i)
    {k' : Kernel} {mem' : Mem} {cr3' : U32} {t : Trap}
    (h : doSwitch l.guarded k cr3 mem ctx = .error (t, (k', mem'), cr3')) :
    ∃ j, k'.sched.cur = some j ∧ j.val = (i.val + 1) % k.sched.ntasks := by
  obtain ⟨j, hj, hval⟩ := next_task hinv (hinv.cur_lt i hcur)
  have hnext : nextNode (saveContext k i ctx cr3).sched i = .task j := hj
  unfold doSwitch at h
  rw [hcur] at h
  simp only [hnext, listEntry] at h
  split at h
  next => cases h
  next =>
    split at h
    next => cases h
    next sig _ =>
      split at h
      next e s herr =>
        cases h
        rw [injectSignal_fault herr]
        exact ⟨j, rfl, hval⟩
      next => cases h

end Tick

/-! ## Whole runs -/

/-- `sched_add_task` starts with the first task. -/
theorem Registered.cur {s : Sched} (h : Registered s) (hpos : 0 < s.ntasks) : s.cur = some 0 := by
  induction h with
  | empty pool => exact absurd hpos (Nat.lt_irrefl 0)
  | @add s s' eip userEsp ss cr3 kstackTop _ hadd ih =>
    rcases Nat.eq_zero_or_pos s.ntasks with h0 | h0
    · unfold schedAddTask at hadd
      split at hadd
      next hlt =>
        cases hadd
        have hidx : (⟨s.ntasks, hlt⟩ : Fin 8) = 0 := Fin.ext h0
        exact congrArg some hidx
      next => cases hadd
    · rw [(schedAddTask_keeps hadd h0).1]
      exact ih h0

/-- Turns and the running task, along a run with `n` tasks. -/
structure RoundInv (n : Nat) (h : List Event) (m : Machine) : Prop where
  sched : SchedInv m.kern.sched
  ntasks : m.kern.sched.ntasks = n
  order : InOrder n (turns h)
  running : m.mode ≠ .halted →
    ∃ t, m.kern.sched.cur = some t ∧ t.val = (turns h).length % n

/-- A step that gives the processor to nobody. -/
theorem RoundInv.keep {n : Nat} {h : List Event} {m m' : Machine} {ev : Event}
    (hinv : RoundInv n h m)
    (hsched : SchedInv m'.kern.sched ∧ m'.kern.sched.ntasks = m.kern.sched.ntasks)
    (hcur : m'.kern.sched.cur = m.kern.sched.cur) (hmode : m'.mode ≠ .halted → m.mode ≠ .halted)
    (hev : ev.resumed = none) : RoundInv n (ev :: h) m' := by
  have hturns : turns (ev :: h) = turns h := List.filterMap_cons_none hev
  refine ⟨hsched.1, hsched.2.trans hinv.ntasks, ?_, fun hm => ?_⟩
  · rw [hturns]
    exact hinv.order
  · rw [hturns, hcur]
    exact hinv.running (hmode hm)

theorem RoundInv.step {env : Env} {n : Nat} {h : List Event} {m m' : Machine} {ev : Event}
    (hinv : RoundInv n h m) (hstep : StepDone env m ev m') : RoundInv n (ev :: h) m' := by
  have hsched := hstep.schedInv hinv.sched
  cases hstep with
  | still hs hmode =>
    exact hinv.keep hsched (congrArg Sched.cur hs.sched) hmode.running rfl
  | keyed scancode hm =>
    exact hinv.keep hsched (keyed_cur m.kern scancode) id (keyEvent_resumed m.kern scancode)
  | @switched r i j s hm _ hcur hj hdone =>
    obtain ⟨t, ht, hval⟩ := hinv.running (by rw [hm]; nofun)
    rw [hcur] at ht
    cases ht
    obtain ⟨j', hj', hnext⟩ := next_task hinv.sched (hinv.sched.cur_lt i hcur)
    rw [hj] at hj'
    cases hj'
    -- the count goes from `k` to `k + 1`, the task from `k mod n` to `(k mod n + 1) mod n`
    have hev : s.ev.resumed = some j := by cases hdone <;> rfl
    have hturns : turns (s.ev :: h) = j :: turns h := List.filterMap_cons_some hev
    have hj1 : j.val = ((turns h).length + 1) % n := by
      rw [hnext, hval, hinv.ntasks, Nat.mod_add_mod]
    refine ⟨hsched.1, hsched.2.trans hinv.ntasks, ?_, fun _ => ⟨j, hdone.spec.1, ?_⟩⟩
    · rw [hturns]
      exact ⟨hj1, hinv.order⟩
    · rw [hturns]
      exact hj1
  | switchFault =>
    exact ⟨hsched.1, hsched.2.trans hinv.ntasks, hinv.order, fun hm => absurd rfl hm⟩
  | called hm _ hdone =>
    refine hinv.keep hsched hdone.sched.2.2 (fun _ => by rw [hm]; nofun) ?_
    cases hdone <;> rfl
  | killed hm _ => exact hinv.keep hsched rfl (fun _ => by rw [hm]; nofun) rfl

theorem Started.roundInv {m : Machine} (h : Started m) (hn : 0 < m.kern.sched.ntasks) :
    RoundInv m.kern.sched.ntasks [] m :=
  ⟨h.tasks.inv, rfl, trivial, fun _ => ⟨0, h.tasks.cur hn, rfl⟩⟩

/-- **Round robin.** In every run with tasks registered in which no store through a user
pointer lands in the kernel's own memory, after `k` ticks from ring 3 task `k mod n` runs,
also when the last of them faults on a signal frame; the walk never ends at the sentinel;
and `n` ticks in a row run each task once. -/
theorem round_robin {env : Env} {m0 m : Machine} {h : List Event} (hstart : Started m0)
    (hn : 0 < m0.kern.sched.ntasks) (hrun : Run (Step env.guarded) m0 h m) :
    (m.mode ≠ .halted → ∃ t, m.kern.sched.cur = some t ∧
      t.val = (turns h).length % m0.kern.sched.ntasks) ∧
    (∀ r, m.mode = .user r →
      (∀ s, doSwitch env.guarded.link m.kern m.cr3 m.mem (r.pushed m.kern.esp0) = .ok s →
        ∃ t, s.ev.resumed = some t ∧ s.kern.sched.cur = some t ∧
          t.val = ((turns h).length + 1) % m0.kern.sched.ntasks) ∧
      ∀ e s cr3, doSwitch env.guarded.link m.kern m.cr3 m.mem (r.pushed m.kern.esp0) =
        .error (e, s, cr3) → ∃ t, s.1.sched.cur = some t ∧
          t.val = ((turns h).length + 1) % m0.kern.sched.ntasks) ∧
    (∀ i : Fin 8, i.val < m.kern.sched.ntasks → nextNode m.kern.sched i ≠ .head) ∧
    ∀ h1 h2, h = h2 ++ h1 → (turns h2).length = m0.kern.sched.ntasks →
      ∀ t : Fin 8, t.val < m0.kern.sched.ntasks → (turns h2).count t = 1 := by
  have hinv : RoundInv m0.kern.sched.ntasks h m :=
    hrun.inv (RoundInv m0.kern.sched.ntasks) (hstart.roundInv hn) fun _ _ _ _ hi hs =>
      hi.step hs.done
  have huser := hrun.ind UserInv hstart.userInv fun _ _ _ hi hs => hi.step hs.done
  refine ⟨hinv.running, fun r hm => ?_, fun i hi => ?_, ?_⟩
  · obtain ⟨t, hcur, ht⟩ := hinv.running (by rw [hm]; nofun)
    have hring : rpl (r.pushed m.kern.esp0 9) ≠ 0#32 := by
      have hr := huser.mode
      rw [hm] at hr
      rw [pushed_cs, hr.1]
      nofun
    have hnext : (t.val + 1) % m.kern.sched.ntasks =
        ((turns h).length + 1) % m0.kern.sched.ntasks := by
      rw [hinv.ntasks, ht, Nat.mod_add_mod]
    rw [← hnext]
    exact ⟨fun s hs => doSwitch_next hinv.sched hcur hring hs,
      fun e s cr3 hs => doSwitch_next_fault hinv.sched hcur hs⟩
  · obtain ⟨j, hj, _⟩ := next_task hinv.sched hi
    rw [hj]
    nofun
  · rintro h1 h2 rfl hlen t ht
    have horder := hinv.order
    rw [turns_append] at horder
    exact horder.count hlen ht

/-- After the first tick task B has had one turn and runs. -/
theorem round_robin_firstTick : ∃ env m0 m h, Started m0 ∧ m0.kern.sched.ntasks = 2 ∧
    Run (Step (Env.guarded env)) m0 h m ∧ (turns h).length = 1 ∧
    ∃ t, m.kern.sched.cur = some t ∧ t.val = 1 := by
  obtain ⟨m0, hd⟩ := demo_exists (ext2Unmounted 0#32)
  obtain ⟨_, m, _, _, hmode, hrun⟩ := hd.firstTick (wildEnv fun _ _ => 0#8).guarded
  have hn : 0 < m0.kern.sched.ntasks := by
    rw [hd.ntasks]
    exact Nat.zero_lt_two
  obtain ⟨t, hcur, ht⟩ := (round_robin hd.booted.started hn hrun).1 (by rw [hmode]; nofun)
  refine ⟨_, m0, m, _, hd.booted.started, hd.ntasks, hrun, rfl, t, hcur, ?_⟩
  rw [ht, hd.ntasks]
  rfl

/-- **Without the guard the turns end**: the frame of a signal stores 0 over `cur_task`, and
two ticks after the start no task runs. -/
theorem round_robin_unguarded : ∃ env m0 m h, Started m0 ∧ m0.kern.sched.ntasks = 2 ∧
    Run (Step env) m0 h m ∧ (turns h).length = 2 ∧ m.mode ≠ .halted ∧
    m.kern.sched.cur = none := by
  obtain ⟨m0, hd⟩ := demo_exists (ext2Unmounted 0#32)
  have hX : ∀ n, n < 0x112000 → (BitVec.ofNat 32 n).toNat = n := by
    intro n hn
    rw [BitVec.toNat_ofNat]
    omega
  -- 2 goes to `ntasks`, which holds 2, and 0 to `cur_task`
  have h1 := wild_store32 (k := (m0.armed taskCodeVirt (wildRegs 0x111000)).turned
    (wildRegs 0x111000)) (hd.reaches (X := 0x111000 + 4) (by omega) (by omega) (by omega))
    (by rw [hX _ (by omega)]; unfold curTaskAddr; omega)
    (show fieldAt (BitVec.ofNat 32 (0x111000 + 4)).toNat = some .ntasks from rfl) 2#32
  have h2 := wild_null
    (k := Field.ntasks.put ((m0.armed taskCodeVirt (wildRegs 0x111000)).turned
      (wildRegs 0x111000)) 2#32)
    (hd.reaches (X := 0x111000) (by omega) (by omega) (by omega)) (hX _ (by omega)) rfl
  obtain ⟨left, r, hrun⟩ := hd.wildDelivery (fun _ _ => 0#8) h1 h2
  exact ⟨_, m0, _, _, hd.booted.started, hd.ntasks, hrun, rfl, nofun, rfl⟩

end PepinOS
