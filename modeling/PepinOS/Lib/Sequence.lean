import PepinOS.Lib.List

/-!
# Intrusive lists as sequences

What `lib/list.h` is for: a list is its head, and what it holds is a sequence. `Lists`
gives the sequence of each head there is, and a `ListOp` does to it what the comments of
the source say (`list_add` puts a node first, `list_add_tail` last, `list_del` takes one
out). `Holds` connects the two: in the heap each of the lists is a circle, and no two
circles meet.

One step keeps that (`Holds.step`), for every operation the header may be asked for
(`Legal`): a node is added that is not in a list, a node is deleted that is in one. So it
is kept along every run, on every heap; what the heap was before does not matter, since
only lists that were initialised are there. The iterators then visit the sequence
(`Ring.isSequence`): forwards, backwards, and with a body that takes the current node out
of the list, which is what `list_for_each_safe` keeps its second pointer for.
-/

namespace PepinOS

variable {α : Type}

/-! ## The iterators -/

/-- `for (pos = ...; pos != head; pos = succ(pos))`: the nodes it visits, `n` tests left. -/
def visitFrom [DecidableEq α] (succ : α → α) (head : α) : Nat → α → Option (List α)
  | 0, _ => none
  | n + 1, pos =>
    if pos = head then some []
    else do
      let rest ← visitFrom succ head n (succ pos)
      return pos :: rest

/-- `list_for_each`. -/
def listForEach [DecidableEq α] (h : Links α) (head : α) (n : Nat) : Option (List α) :=
  visitFrom (fun pos => (h pos).next) head n (h head).next

/-- The same loop by `prev`. -/
def listForEachPrev [DecidableEq α] (h : Links α) (head : α) (n : Nat) : Option (List α) :=
  visitFrom (fun pos => (h pos).prev) head n (h head).prev

/-- The loop of `list_for_each_safe` with a body that changes the heap: the heap at the end
and the nodes visited. -/
def safeFrom [DecidableEq α] (body : Links α → α → Links α) (head : α) :
    Nat → Links α → α → α → Option (Links α × List α)
  | 0, _, _, _ => none
  | k + 1, h, pos, n =>
    if pos = head then some (h, [])
    else do
      -- the body, then `pos = n, n = pos->next`
      let r ← safeFrom body head k (body h pos) n (body h pos n).next
      return (r.1, pos :: r.2)

/-- `list_for_each_safe`. -/
def listForEachSafe [DecidableEq α] (body : Links α → α → Links α) (h : Links α) (head : α)
    (k : Nat) : Option (Links α × List α) :=
  let pos := (h head).next
  let n := (h pos).next
  safeFrom body head k h pos n

/-! ## Operations on sequences -/

/-- The lists there are, by head, each with its elements in order. -/
abbrev Lists (α : Type) := α → Option (List α)

/-- A call of one of the functions of the header. -/
inductive ListOp (α : Type) where
  | init (n : α)
  | add (head new : α)
  | addTail (head new : α)
  | del (node : α)

/-- What the call does to the heap. -/
def ListOp.run [DecidableEq α] (h : Links α) : ListOp α → Links α
  | .init n => listInit h n
  | .add head new => listAdd h head new
  | .addTail head new => listAddTail h head new
  | .del node => listDel h node

/-- What it does to the sequences. A node that becomes an element is no head any more. -/
def ListOp.apply [DecidableEq α] (L : Lists α) : ListOp α → Lists α
  | .init n => Function.update L n (some [])
  | .add head new => Function.update (Function.update L new none) head ((L head).map (new :: ·))
  | .addTail head new =>
    Function.update (Function.update L new none) head ((L head).map (· ++ [new]))
  | .del node => fun k => (L k).map (·.erase node)

/-- The node is an element of none of the lists. -/
def Lists.NoElement (L : Lists α) (node : α) : Prop := ∀ k, ∀ l ∈ L k, node ∉ l

/-- It is in no circle but, if it is a head, its own. -/
theorem Lists.NoElement.not_mem {L : Lists α} {node k : α} {l : List α} (hnode : L.NoElement node)
    (hne : node ≠ k) (hl : L k = some l) : node ∉ k :: l := fun hm =>
  (List.mem_cons.mp hm).elim hne (hnode k l hl)

theorem Lists.NoElement.update [DecidableEq α] {L : Lists α} {node head : α}
    (hL : L.NoElement node) {o : Option (List α)} (ho : ∀ l ∈ o, node ∉ l) :
    Lists.NoElement (Function.update L head o) node := by
  intro k l hl
  by_cases hk : k = head
  · rw [hk, Function.update_self] at hl
    exact ho l hl
  · rw [Function.update_of_ne hk] at hl
    exact hL k l hl

/-- What a call may be asked for. A head may be initialised again, and a node to be added
may be the head of another list as long as that list is empty. -/
def ListOp.Legal (L : Lists α) : ListOp α → Prop
  | .init n => L.NoElement n
  | .add head new | .addTail head new =>
    (∃ l, L head = some l) ∧ L.NoElement new ∧ new ≠ head ∧ ∀ l ∈ L new, l = []
  | .del node => ∃ k, ∃ l ∈ L k, node ∈ l

/-- The list the call is about. -/
def ListOp.IsFor (L : Lists α) (head : α) : ListOp α → Prop
  | .init n => head = n
  | .add k _ | .addTail k _ => head = k
  | .del node => ∃ l ∈ L head, node ∈ l

/-- Each call of the run may be asked for where it is made. -/
def LegalRun [DecidableEq α] : Lists α → List (ListOp α) → Prop
  | _, [] => True
  | L, op :: ops => op.Legal L ∧ LegalRun (op.apply L) ops

/-- Each of the lists is a circle in the heap, and the circles are apart. -/
structure Holds (h : Links α) (L : Lists α) : Prop where
  ring : ∀ k, ∀ l ∈ L k, Ring h k l
  apart : ∀ j k, j ≠ k → ∀ lj ∈ L j, ∀ lk ∈ L k, ∀ x ∈ j :: lj, x ∉ k :: lk

/-- Before any call there are no lists, in any heap. -/
theorem holds_none (h : Links α) : Holds h fun _ => none where
  ring _ _ hl := nomatch hl
  apart _ _ _ _ hl := nomatch hl

/-! ## One call -/

section

variable [DecidableEq α] {h h' : Links α} {L L' : Lists α} {head : α} {l : List α}

/-- The list at `head` is now `l`; any other that is there was there before, with the same
links, and `l` is apart from it. -/
structure Changed (h h' : Links α) (L L' : Lists α) (head : α) (l : List α) : Prop where
  ring : Ring h' head l
  here : L' head = some l
  kept : ∀ k, k ≠ head → ∀ lk ∈ L' k, L k = some lk ∧ ∀ x ∈ k :: lk, h' x = h x ∧ x ∉ head :: l

theorem Changed.holds (hc : Changed h h' L L' head l) (hL : Holds h L) : Holds h' L' where
  ring k lk hk := by
    by_cases hhead : k = head
    · subst hhead
      cases hc.here.symm.trans hk
      exact hc.ring
    · obtain ⟨hbefore, hsame⟩ := hc.kept k hhead lk hk
      exact (hL.ring k lk hbefore).congr fun x hx => (hsame x hx).1
  apart j k hjk lj hj lk hk x hxj hxk := by
    by_cases hjh : j = head
    · subst hjh
      cases hc.here.symm.trans hj
      exact ((hc.kept k (Ne.symm hjk) lk hk).2 x hxk).2 hxj
    obtain ⟨hj', hsame⟩ := hc.kept j hjh lj hj
    by_cases hkh : k = head
    · subst hkh
      cases hc.here.symm.trans hk
      exact (hsame x hxj).2 hxk
    · exact hL.apart j k hjk lj hj' lk (hc.kept k hkh lk hk).1 x hxj hxk

theorem init_changed {n : α} (hn : L.NoElement n) :
    Changed h (listInit h n) L ((ListOp.init n).apply L) n [] where
  ring := listInit_ring h n
  here := Function.update_self ..
  kept k hk lk hlk := by
    rw [ListOp.apply, Function.update_of_ne hk] at hlk
    refine ⟨hlk, fun x hx => ?_⟩
    have hxn : x ≠ n := fun e => hn.not_mem (Ne.symm hk) hlk (e ▸ hx)
    exact ⟨listInit_other h hxn, fun hm => hxn (List.mem_singleton.mp hm)⟩

/-- A node is linked in at either end. -/
theorem insert_changed {new : α} {l' : List α} (hL : Holds h L) (hhead : L head = some l)
    (hnew : L.NoElement new) (hne : new ≠ head) (hring : Ring h' head l')
    (hmem : ∀ x, x ∈ l' → x = new ∨ x ∈ l)
    (hsame : ∀ x, x ≠ new → x ∉ head :: l → h' x = h x) :
    Changed h h' L (Function.update (Function.update L new none) head (some l')) head l' where
  ring := hring
  here := Function.update_self ..
  kept k hk lk hlk := by
    rw [Function.update_of_ne hk] at hlk
    have hkn : k ≠ new := by
      rintro rfl
      rw [Function.update_self] at hlk
      exact nomatch hlk
    rw [Function.update_of_ne hkn] at hlk
    refine ⟨hlk, fun x hx => ?_⟩
    have hxn : x ≠ new := fun e => hnew.not_mem (Ne.symm hkn) hlk (e ▸ hx)
    have hout : x ∉ head :: l := hL.apart k head hk lk hlk l hhead x hx
    refine ⟨hsame x hxn hout, fun hm => ?_⟩
    rcases List.mem_cons.mp hm with rfl | hm
    · exact hout (List.mem_cons_self ..)
    · rcases hmem x hm with he | hl
      · exact hxn he
      · exact hout (List.mem_cons_of_mem _ hl)

theorem del_changed {node : α} (hL : Holds h L) (hhead : L head = some l) (hnode : node ∈ l) :
    Changed h (listDel h node) L ((ListOp.del node).apply L) head (l.erase node) where
  ring := by
    obtain ⟨s, t, _, hsplit, herase⟩ := List.exists_erase_eq hnode
    have hring := hL.ring head l hhead
    rw [hsplit] at hring
    rw [herase]
    exact listDel_ring hring
  here := by
    show (L head).map _ = _
    rw [hhead, Option.map_some]
  kept k hk lk hlk := by
    obtain ⟨lk', hlk', rfl⟩ := Option.map_eq_some_iff.mp hlk
    have hout : ∀ x ∈ k :: lk', x ∉ head :: l := hL.apart k head hk lk' hlk' l hhead
    have hnot : node ∉ lk' := fun hm =>
      hout node (List.mem_cons_of_mem _ hm) (List.mem_cons_of_mem _ hnode)
    rw [List.erase_of_not_mem hnot]
    refine ⟨hlk', fun x hx => ⟨?_, fun hm => hout x hx ?_⟩⟩
    · exact listDel_other_ring (hL.ring head l hhead) hnode (hout x hx)
    · exact List.mem_cons.mpr ((List.mem_cons.mp hm).imp_right List.mem_of_mem_erase)

/-- What a call does, whichever it is. -/
theorem ListOp.changed {op : ListOp α} (hL : Holds h L) (hop : op.Legal L) :
    ∃ head l, op.IsFor L head ∧ Changed h (op.run h) L (op.apply L) head l := by
  cases op with
  | init n => exact ⟨n, [], rfl, init_changed hop⟩
  | add head new =>
    obtain ⟨⟨l, hl⟩, hnew, hne, _⟩ := hop
    have hring := hL.ring head l hl
    have hc := insert_changed hL hl hnew hne (listAdd_ring hring (hnew.not_mem hne hl))
      (fun x hx => List.mem_cons.mp hx) fun x hx hxl => listAdd_other hring hx hxl
    refine ⟨head, new :: l, rfl, ?_⟩
    rw [ListOp.apply, hl]
    exact hc
  | addTail head new =>
    obtain ⟨⟨l, hl⟩, hnew, hne, _⟩ := hop
    have hring := hL.ring head l hl
    have hc := insert_changed hL hl hnew hne (listAddTail_ring hring (hnew.not_mem hne hl))
      (fun x hx => (List.mem_append.mp hx).symm.imp_left List.mem_singleton.mp)
      fun x hx hxl => listAddTail_other hring hx hxl
    refine ⟨head, l ++ [new], rfl, ?_⟩
    rw [ListOp.apply, hl]
    exact hc
  | del node =>
    obtain ⟨head, l, hl, hnode⟩ := hop
    exact ⟨head, l.erase node, ⟨l, hl, hnode⟩, del_changed hL hl hnode⟩

/-- **One call keeps the lists.** -/
theorem Holds.step {op : ListOp α} (hL : Holds h L) (hop : op.Legal L) :
    Holds (op.run h) (op.apply L) := by
  obtain ⟨_, _, _, hc⟩ := ListOp.changed hL hop
  exact hc.holds hL

/-- And leaves the others alone. -/
theorem Holds.others {op : ListOp α} (hL : Holds h L) (hop : op.Legal L) {k : α}
    (hk : ¬op.IsFor L k) {lk : List α} (hlk : op.apply L k = some lk) :
    L k = some lk ∧ ∀ x ∈ k :: lk, op.run h x = h x := by
  obtain ⟨head, l, hfor, hc⟩ := ListOp.changed hL hop
  have hne : k ≠ head := fun e => hk (e ▸ hfor)
  obtain ⟨hbefore, hsame⟩ := hc.kept k hne lk hlk
  exact ⟨hbefore, fun x hx => (hsame x hx).1⟩

theorem Holds.run {ops : List (ListOp α)} (hL : Holds h L) (hops : LegalRun L ops) :
    Holds (ops.foldl ListOp.run h) (ops.foldl ListOp.apply L) := by
  induction ops generalizing h L with
  | nil => exact hL
  | cons op ops ih => exact ih (hL.step hops.1) hops.2

end

/-! ## What the iterators visit -/

section

variable [DecidableEq α] {h : Links α} {head : α} {l : List α}

theorem visitFrom_chain {b : α} : ∀ {l : List α} {a : α} {n : Nat}, Chain h a l b → b ∉ l →
    l.length < n → visitFrom (fun pos => (h pos).next) b n (h a).next = some l
  | _, _, 0, _, _, hn => absurd hn (Nat.not_lt_zero _)
  | [], _, n + 1, hc, _, _ => by
    rw [visitFrom, hc.1, if_pos rfl]
  | x :: l, _, n + 1, hc, hb, hn => by
    obtain ⟨hnext, _, hrest⟩ := hc
    have hxb : x ≠ b := fun e => hb (e ▸ List.mem_cons_self ..)
    have ih := visitFrom_chain hrest (fun hm => hb (List.mem_cons_of_mem _ hm))
      (Nat.lt_of_succ_lt_succ hn)
    rw [visitFrom, hnext, if_neg hxb, ih]
    rfl

theorem Ring.forEach (hr : Ring h head l) {n : Nat} (hn : l.length < n) :
    listForEach h head n = some l :=
  visitFrom_chain hr.1 (List.nodup_cons.mp hr.2).1 hn

/-- Backwards it is the same loop on the mirrored heap. -/
theorem Ring.forEachPrev (hr : Ring h head l) {n : Nat} (hn : l.length < n) :
    listForEachPrev h head n = some l.reverse :=
  hr.mirror.forEach (by rwa [List.length_reverse])

theorem Ring.empty_iff (hr : Ring h head l) : listEmpty h head = true ↔ l = [] := by
  unfold listEmpty
  rw [beq_iff_eq]
  cases l with
  | nil => exact iff_of_true hr.1.1 rfl
  | cons x l =>
    have hne : x ≠ head := fun e => (List.nodup_cons.mp hr.2).1 (e ▸ List.mem_cons_self ..)
    refine iff_of_false (fun he => hne ?_) (List.cons_ne_nil x l)
    rw [← hr.1.1, he]

/-- The body takes the current node, the first there is, out of the list at `head`; to nodes
that are not in it, and to the one taken out, it may do anything. -/
def Deletes (body : Links α → α → Links α) (head : α) : Prop :=
  ∀ h pos rest, Ring h head (pos :: rest) → ∀ x ∈ head :: rest, body h pos x = listDel h pos x

/-- What the body does is done when the next node has been read, so the loop goes on at the
node that is first now. `I` is whatever the body keeps. -/
theorem Ring.forEachSafe {body : Links α → α → Links α} (hbody : Deletes body head)
    {I : Links α → Prop} : ∀ {l : List α} {h : Links α} {k : Nat},
    (∀ h pos rest, pos :: rest <:+ l → Ring h head (pos :: rest) → I h → I (body h pos)) →
    Ring h head l → I h → l.length < k →
      ∃ h', listForEachSafe body h head k = some (h', l) ∧ Ring h' head [] ∧ I h'
  | _, _, 0, _, _, _, hk => absurd hk (Nat.not_lt_zero _)
  | [], h, k + 1, _, hr, hI, _ => by
    refine ⟨h, ?_, hr, hI⟩
    unfold listForEachSafe
    rw [safeFrom, hr.1.1, if_pos rfl]
  | x :: l, h, k + 1, hkeep, hr, hI, hk => by
    obtain ⟨hnext, hprev, _⟩ := hr.1
    have hne : x ≠ head := fun e => (List.nodup_cons.mp hr.2).1 (e ▸ List.mem_cons_self ..)
    have hsame := hbody h x l hr
    have hdel : Ring (listDel h x) head l := listDel_ring (l := []) hr
    -- the body has linked the head to the node read before it
    have hsecond : (body h x head).next = (h x).next := by
      rw [hsame head (List.mem_cons_self ..), listDel_next, hprev, if_pos rfl]
    obtain ⟨h', hloop, hend⟩ := Ring.forEachSafe hbody
      (fun g pos rest hsuf => hkeep g pos rest (hsuf.trans (List.suffix_cons x l)))
      (hdel.congr hsame) (hkeep h x l (List.suffix_refl _) hr hI) (Nat.lt_of_succ_lt_succ hk)
    refine ⟨h', ?_, hend⟩
    have hrest : safeFrom body head k (body h x) (h x).next (body h x (h x).next).next =
        some (h', l) := by
      rw [← hsecond]
      exact hloop
    unfold listForEachSafe
    rw [safeFrom, hnext, if_neg hne, hrest]
    rfl

/-- With `list_del` for a body, nothing outside the list is stored to. -/
theorem Ring.drain (hr : Ring h head l) {k : Nat} (hk : l.length < k) :
    ∃ h', listForEachSafe listDel h head k = some (h', l) ∧ Ring h' head [] ∧
      ∀ x, x ∉ head :: l → h' x = h x := by
  refine Ring.forEachSafe (I := fun g => ∀ x, x ∉ head :: l → g x = h x)
    (fun _ _ _ _ _ _ => rfl) (fun g pos rest hsuf hring hI x hx => ?_) hr (fun _ _ => rfl) hk
  have hout : x ∉ head :: pos :: rest := fun hm =>
    hx (List.mem_cons.mpr ((List.mem_cons.mp hm).imp_right fun hm => hsuf.subset hm))
  rw [listDel_other_ring hring (List.mem_cons_self ..) hout]
  exact hI x hx

/-- What the header's functions and iterators say of the list at `head`: it is `l`. -/
structure IsSequence (h : Links α) (head : α) (l : List α) : Prop where
  nodup : l.Nodup
  forward : ∀ n, l.length < n → listForEach h head n = some l
  backward : ∀ n, l.length < n → listForEachPrev h head n = some l.reverse
  empty : listEmpty h head = true ↔ l = []
  safe : ∀ body, Deletes body head → ∀ k, l.length < k →
    ∃ h', listForEachSafe body h head k = some (h', l) ∧ listEmpty h' head = true

theorem Ring.isSequence (hr : Ring h head l) : IsSequence h head l where
  nodup := (List.nodup_cons.mp hr.2).2
  forward _ hn := hr.forEach hn
  backward _ hn := hr.forEachPrev hn
  empty := hr.empty_iff
  safe body hbody k hk := by
    obtain ⟨h', hloop, hend, _⟩ := Ring.forEachSafe (I := fun _ => True) hbody
      (fun _ _ _ _ _ _ => trivial) hr trivial hk
    exact ⟨h', hloop, hend.empty_iff.mpr rfl⟩

end

/-- **The list is a sequence.** On every heap, after every run of calls that may be asked
for: each list is the sequence the calls have made of it; the next call leaves the other
lists and their nodes as they are; and deleting every element in turn visits each once,
ends, and stores to nothing outside the list. -/
theorem list_sequence [DecidableEq α] (h : Links α) (ops : List (ListOp α))
    (hops : LegalRun (fun _ => none) ops) :
    let h' := ops.foldl ListOp.run h
    let L := ops.foldl ListOp.apply fun _ => none
    (∀ head, ∀ l ∈ L head, IsSequence h' head l) ∧
    (∀ op : ListOp α, op.Legal L → ∀ k, ¬op.IsFor L k → ∀ l ∈ op.apply L k,
      L k = some l ∧ ∀ x ∈ k :: l, op.run h' x = h' x) ∧
    ∀ head, ∀ l ∈ L head, ∀ k, l.length < k → ∃ g, listForEachSafe listDel h' head k = some (g, l) ∧
      listEmpty g head = true ∧ ∀ x, x ∉ head :: l → g x = h' x := by
  intro h' L
  have hL : Holds h' L := (holds_none h).run hops
  refine ⟨fun head l hl => (hL.ring head l hl).isSequence,
    fun op hop k hk l hl => hL.others hop hk hl, fun head l hl k hk => ?_⟩
  obtain ⟨g, hloop, hend, hout⟩ := (hL.ring head l hl).drain hk
  exact ⟨g, hloop, hend.empty_iff.mpr rfl, hout⟩

/-- Two lists; the first gets an element at either end and loses one again. -/
def twoLists : List (ListOp Nat) := [.init 0, .init 5, .add 0 1, .addTail 0 2, .del 1]

theorem list_sequence_two : LegalRun (fun _ => none) twoLists ∧
    IsSequence (twoLists.foldl ListOp.run fun n => ⟨n + 1, n + 2⟩) 0 [2] ∧
    IsSequence (twoLists.foldl ListOp.run fun n => ⟨n + 1, n + 2⟩) 5 [] := by
  have hnone : ∀ n : Nat, Lists.NoElement (fun _ => none) n := fun n k l hl => nomatch hl
  have hinit : ∀ n : Nat, Lists.NoElement (Function.update (Function.update (fun _ => none) 0
      (some [])) 5 (some [])) n := fun n => ((hnone n).update (by simp)).update (by simp)
  have hlegal : LegalRun (fun _ => none) twoLists := by
    refine ⟨hnone 0, (hnone 5).update (by simp), ⟨⟨[], rfl⟩, hinit 1, by decide, ?_⟩,
      ⟨⟨[1], rfl⟩, ?_, by decide, ?_⟩, ⟨0, [1, 2], rfl, by simp⟩, trivial⟩
    · simp [ListOp.apply]
    · exact ((hinit 2).update (by simp)).update (by simp [ListOp.apply])
    · simp [ListOp.apply]
  have hrun := (list_sequence (fun n => ⟨n + 1, n + 2⟩) twoLists hlegal).1
  exact ⟨hlegal, hrun 0 [2] rfl, hrun 5 [] rfl⟩

end PepinOS
