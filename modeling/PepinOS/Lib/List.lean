import Mathlib.Logic.Function.Basic

/-!
# Intrusive circular lists

`lib/list.h`. The nodes live inside other structures; what the list code sees
is a heap of `list_head`s, one per node address, so that is the state here, for
any type of addresses. Each operation is its stores, in the order of the source.

`Ring h head l` says that the heap links `head` and the elements of `l`, in this
order, into one circle. Read with `next` and `prev` exchanged (`mirror`) it is the circle
of the reversed list, so `list_add_tail` is `list_add` seen backwards. The scheduler
uses `list_add_tail` alone; `Lib.Sequence` has all the operations, in any order.
-/

namespace PepinOS

variable {α : Type}

/-- `struct list_head`. -/
@[ext] structure ListHead (α : Type) where
  next : α
  prev : α

/-- The `list_head`s of memory, by address. -/
abbrev Links (α : Type) := α → ListHead α

/-- Following `next` from `a` visits `l` and then `b`, and `prev` leads back. -/
def Chain (h : Links α) : α → List α → α → Prop
  | a, [], b => (h a).next = b ∧ (h b).prev = a
  | a, x :: l, b => (h a).next = x ∧ (h x).prev = a ∧ Chain h x l b

/-- The circle through `head` and the elements of `l`. -/
def Ring (h : Links α) (head : α) (l : List α) : Prop :=
  Chain h head l head ∧ (head :: l).Nodup

/-- The node before the far end of a chain. -/
theorem chain_prev {h : Links α} : ∀ {l : List α} {a b : α}, Chain h a l b →
    (h b).prev = (a :: l).getLast (List.cons_ne_nil a l)
  | [], _, _, hc => hc.2
  | x :: l, a, b, hc => by
    rw [List.getLast_cons (List.cons_ne_nil x l)]
    exact chain_prev hc.2.2

/-- Stepping along a chain: the successor of the `i`-th node. -/
theorem chain_next {h : Links α} : ∀ {l : List α} {a b : α}, Chain h a l b →
    ∀ i (hi : i < (a :: l).length),
      (h ((a :: l)[i])).next = if hj : i < l.length then l[i] else b
  | [], _, _, hc, i, hi => by
    have h0 : i = 0 := by simpa using hi
    subst h0
    simpa using hc.1
  | x :: l, a, b, hc, 0, _ => by simpa using hc.1
  | x :: l, a, b, hc, i + 1, hi => by
    have hrec := chain_next hc.2.2 i (by simpa using hi)
    simpa using hrec

/-- At a node in the middle a chain comes apart. -/
theorem chain_append {h : Links α} {x b : α} {r : List α} : ∀ {l : List α} {a : α},
    Chain h a (l ++ x :: r) b ↔ Chain h a l x ∧ Chain h x r b
  | [], _ => and_assoc.symm
  | y :: _, _ => by
    rw [List.cons_append, Chain, Chain, chain_append, and_assoc, and_assoc]

/-- The links a chain reads. -/
theorem Chain.congr {h h' : Links α} {b : α} : ∀ {l : List α} {a : α}, Chain h a l b →
    (∀ x ∈ a :: l, (h' x).next = (h x).next) → (∀ x, x ∈ l ∨ x = b → (h' x).prev = (h x).prev) →
    Chain h' a l b
  | [], a, ⟨hnext, hprev⟩, hn, hp =>
    ⟨(hn a (List.mem_cons_self ..)).trans hnext, (hp b (Or.inr rfl)).trans hprev⟩
  | x :: _, a, ⟨hnext, hprev, hrest⟩, hn, hp =>
    ⟨(hn a (List.mem_cons_self ..)).trans hnext, (hp x (Or.inl (List.mem_cons_self ..))).trans hprev,
      hrest.congr (fun y hy => hn y (List.mem_cons_of_mem _ hy))
        fun y hy => hp y (hy.imp_left (List.mem_cons_of_mem _))⟩

/-- The node behind the near end of a chain. -/
theorem Chain.next_mem {h : Links α} {a b : α} {l : List α} (hc : Chain h a l b) :
    (h a).next ∈ l ∨ (h a).next = b := by
  cases l with
  | nil => exact Or.inr hc.1
  | cons x l => exact Or.inl (hc.1 ▸ List.mem_cons_self ..)

/-- The heap seen backwards. -/
def mirror (h : Links α) : Links α := fun x => ⟨(h x).prev, (h x).next⟩

@[simp] theorem mirror_next (h : Links α) (x : α) : (mirror h x).next = (h x).prev := rfl

@[simp] theorem mirror_prev (h : Links α) (x : α) : (mirror h x).prev = (h x).next := rfl

/-- Backwards a chain has the same nodes, from the far end on. -/
theorem chain_mirror {h : Links α} {b : α} : ∀ {l : List α} {a : α}, Chain h a l b →
    Chain (mirror h) b l.reverse a
  | [], _, ⟨hnext, hprev⟩ => ⟨hprev, hnext⟩
  | x :: l, _, ⟨hnext, hprev, hrest⟩ => by
    rw [List.reverse_cons]
    exact chain_append.mpr ⟨chain_mirror hrest, hprev, hnext⟩

namespace Ring

variable {h h' : Links α} {head x : α} {l : List α} (hr : Ring h head l)

include hr

theorem mirror : Ring (mirror h) head l.reverse := by
  obtain ⟨hc, hnd⟩ := hr
  refine ⟨chain_mirror hc, List.nodup_cons.mpr ⟨?_, ?_⟩⟩
  · rw [List.mem_reverse]
    exact (List.nodup_cons.mp hnd).1
  · exact (List.reverse_perm l).nodup_iff.mpr (List.nodup_cons.mp hnd).2

theorem next_mem (hx : x ∈ head :: l) : (h x).next ∈ head :: l := by
  rcases List.mem_cons.mp hx with rfl | hx
  · exact List.mem_cons.mpr hr.1.next_mem.symm
  · obtain ⟨s, t, rfl⟩ := List.append_of_mem hx
    rcases (chain_append.mp hr.1).2.next_mem with hm | hm
    · exact List.mem_cons_of_mem _ (List.mem_append_right _ (List.mem_cons_of_mem _ hm))
    · exact List.mem_cons.mpr (Or.inl hm)

theorem prev_mem (hx : x ∈ head :: l) : (h x).prev ∈ head :: l := by
  have hm := hr.mirror.next_mem (x := x) (by simpa using hx)
  simpa using hm

/-- A circle reads the links of its own nodes. -/
theorem congr (hsame : ∀ x ∈ head :: l, h' x = h x) : Ring h' head l := by
  refine ⟨hr.1.congr (fun x hx => ?_) fun x hx => ?_, hr.2⟩
  · rw [hsame x hx]
  · rcases hx with hx | rfl
    · rw [hsame x (List.mem_cons_of_mem _ hx)]
    · rw [hsame x (List.mem_cons_self ..)]

end Ring

theorem ring_mirror {h : Links α} {head : α} {l : List α} :
    Ring (mirror h) head l.reverse ↔ Ring h head l := by
  constructor
  · intro hr
    have hback := hr.mirror
    rw [List.reverse_reverse] at hback
    exact hback
  · exact Ring.mirror

variable [DecidableEq α]

def setNext (h : Links α) (n v : α) : Links α := Function.update h n { h n with next := v }
def setPrev (h : Links α) (n v : α) : Links α := Function.update h n { h n with prev := v }

def listInit (h : Links α) (n : α) : Links α :=
  let h := setNext h n n
  setPrev h n n

/-- `_list_insert`. -/
def listInsert (h : Links α) (new prev next : α) : Links α :=
  let h := setPrev h next new
  let h := setNext h new next
  let h := setPrev h new prev
  setNext h prev new

def listAdd (h : Links α) (head new : α) : Links α := listInsert h new head (h head).next

def listAddTail (h : Links α) (head new : α) : Links α := listInsert h new (h head).prev head

def listDel (h : Links α) (node : α) : Links α :=
  let h := setNext h (h node).prev (h node).next
  setPrev h (h node).next (h node).prev

def listEmpty (h : Links α) (head : α) : Bool := (h head).next == head

@[simp] theorem setNext_next_self (h : Links α) (n v : α) : (setNext h n v n).next = v := by
  simp [setNext]

@[simp] theorem setNext_prev (h : Links α) (n v x : α) : (setNext h n v x).prev = (h x).prev := by
  by_cases hx : x = n
  · subst hx; simp [setNext]
  · simp [setNext, hx]

theorem setNext_next_ne (h : Links α) {n x : α} (v : α) (hx : x ≠ n) :
    (setNext h n v x).next = (h x).next := by
  simp [setNext, hx]

@[simp] theorem setPrev_prev_self (h : Links α) (n v : α) : (setPrev h n v n).prev = v := by
  simp [setPrev]

@[simp] theorem setPrev_next (h : Links α) (n v x : α) : (setPrev h n v x).next = (h x).next := by
  by_cases hx : x = n
  · subst hx; simp [setPrev]
  · simp [setPrev, hx]

theorem setPrev_prev_ne (h : Links α) {n x : α} (v : α) (hx : x ≠ n) :
    (setPrev h n v x).prev = (h x).prev := by
  simp [setPrev, hx]

/-- `list_init` makes the empty circle. -/
theorem listInit_ring (h : Links α) (n : α) : Ring (listInit h n) n [] := by
  refine ⟨⟨?_, ?_⟩, by simp⟩
  · simp [listInit]
  · simp [listInit]

theorem listInit_other (h : Links α) {n x : α} (hx : x ≠ n) : listInit h n x = h x := by
  simp [listInit, setNext, setPrev, hx]

/-- The two links `_list_insert` leaves at a node. The last store to `next` is the one at
`prev`, the last to `prev` the one at `new`. -/
theorem listInsert_next (h : Links α) (new prev next x : α) :
    (listInsert h new prev next x).next =
      if x = prev then new else if x = new then next else (h x).next := by
  unfold listInsert
  by_cases hp : x = prev
  · rw [if_pos hp, hp, setNext_next_self]
  · rw [if_neg hp, setNext_next_ne _ _ hp, setPrev_next]
    by_cases hn : x = new
    · rw [if_pos hn, hn, setNext_next_self]
    · rw [if_neg hn, setNext_next_ne _ _ hn, setPrev_next]

theorem listInsert_prev (h : Links α) (new prev next x : α) :
    (listInsert h new prev next x).prev =
      if x = new then prev else if x = next then new else (h x).prev := by
  unfold listInsert
  rw [setNext_prev]
  by_cases hn : x = new
  · rw [if_pos hn, hn, setPrev_prev_self]
  · rw [if_neg hn, setPrev_prev_ne _ _ hn, setNext_prev]
    by_cases hx : x = next
    · rw [if_pos hx, hx, setPrev_prev_self]
    · rw [if_neg hx, setPrev_prev_ne _ _ hx]

/-- The list code stores to three nodes. -/
theorem listInsert_other (h : Links α) {new prev next x : α} (hnew : x ≠ new) (hp : x ≠ prev)
    (hn : x ≠ next) : listInsert h new prev next x = h x := by
  ext
  · rw [listInsert_next, if_neg hp, if_neg hnew]
  · rw [listInsert_prev, if_neg hnew, if_neg hn]

/-- `list_del` reads the node again after its first store, which leaves it alone unless the
node is its own neighbour; what it then reads is the same. -/
theorem listDel_next (h : Links α) (node x : α) :
    (listDel h node x).next = if x = (h node).prev then (h node).next else (h x).next := by
  unfold listDel
  rw [setPrev_next]
  by_cases hx : x = (h node).prev
  · rw [if_pos hx, hx, setNext_next_self]
  · rw [if_neg hx, setNext_next_ne _ _ hx]

theorem listDel_prev (h : Links α) (node x : α) :
    (listDel h node x).prev = if x = (h node).next then (h node).prev else (h x).prev := by
  have hread : (setNext h (h node).prev (h node).next node).next = (h node).next := by
    by_cases hself : node = (h node).prev
    · rw [← hself, setNext_next_self]
    · rw [setNext_next_ne _ _ hself]
  unfold listDel
  rw [hread, setNext_prev]
  by_cases hx : x = (h node).next
  · rw [if_pos hx, hx, setPrev_prev_self]
  · rw [if_neg hx, setPrev_prev_ne _ _ hx, setNext_prev]

theorem listDel_other (h : Links α) {node x : α} (hp : x ≠ (h node).prev)
    (hn : x ≠ (h node).next) : listDel h node x = h x := by
  ext
  · rw [listDel_next, if_neg hp]
  · rw [listDel_prev, if_neg hn]

/-! ## Insertion -/

/-- Inserting a new node at the beginning of a chain, behind `a`. -/
theorem chain_insert {h : Links α} {new a b : α} {l : List α} (hc : Chain h a l b)
    (hna : new ∉ a :: l) (hnb : new ≠ b) (hnd : (a :: l).Nodup) (hbl : b ∉ l) :
    Chain (listInsert h new a (h a).next) a (new :: l) b := by
  have hne : new ≠ a := fun e => hna (e ▸ List.mem_cons_self ..)
  have hnl : new ∉ l := fun hm => hna (List.mem_cons_of_mem _ hm)
  refine ⟨?_, ?_, ?_⟩
  · rw [listInsert_next, if_pos rfl]
  · rw [listInsert_prev, if_pos rfl]
  cases l with
  | nil =>
    obtain ⟨hnext, _⟩ := hc
    refine ⟨?_, ?_⟩
    · rw [listInsert_next, if_neg hne, if_pos rfl, hnext]
    · rw [listInsert_prev, if_neg (Ne.symm hnb), hnext, if_pos rfl]
  | cons x t =>
    obtain ⟨hnext, _, hrest⟩ := hc
    have hxn : x ≠ new := fun e => hnl (e ▸ List.mem_cons_self ..)
    have hbx : b ≠ x := fun e => hbl (e ▸ List.mem_cons_self ..)
    obtain ⟨hal, hnd⟩ := List.nodup_cons.mp hnd
    refine ⟨?_, ?_, hrest.congr (fun y hy => ?_) fun y hy => ?_⟩
    · rw [listInsert_next, if_neg hne, if_pos rfl, hnext]
    · rw [listInsert_prev, if_neg hxn, hnext, if_pos rfl]
    · have hya : y ≠ a := fun e => hal (e ▸ hy)
      have hyn : y ≠ new := fun e => hnl (e ▸ hy)
      rw [listInsert_next, if_neg hya, if_neg hyn]
    · have hyn : y ≠ new := by
        rcases hy with hy | rfl
        · exact fun e => hnl (e ▸ List.mem_cons_of_mem _ hy)
        · exact Ne.symm hnb
      have hyx : y ≠ x := by
        rcases hy with hy | rfl
        · exact fun e => (List.nodup_cons.mp hnd).1 (e ▸ hy)
        · exact hbx
      rw [listInsert_prev, if_neg hyn, hnext, if_neg hyx]

/-- `list_add` of a node that is not in the circle puts it first. -/
theorem listAdd_ring {h : Links α} {head new : α} {l : List α} (hr : Ring h head l)
    (hnew : new ∉ head :: l) : Ring (listAdd h head new) head (new :: l) := by
  obtain ⟨hc, hnd⟩ := hr
  have hne : new ≠ head := fun e => hnew (e ▸ List.mem_cons_self ..)
  have hnl : new ∉ l := fun hm => hnew (List.mem_cons_of_mem _ hm)
  obtain ⟨hhl, hl⟩ := List.nodup_cons.mp hnd
  refine ⟨chain_insert hc hnew hne hnd hhl, List.nodup_cons.mpr ⟨?_, List.nodup_cons.mpr ⟨hnl, hl⟩⟩⟩
  intro hm
  rcases List.mem_cons.mp hm with he | hm
  · exact hne he.symm
  · exact hhl hm

/-- Backwards, inserting is inserting between the same two nodes. -/
theorem listInsert_mirror (h : Links α) {new prev next : α} (hp : new ≠ prev) (hn : new ≠ next) :
    mirror (listInsert h new prev next) = listInsert (mirror h) new next prev := by
  funext x
  ext
  · rw [mirror_next, listInsert_prev, listInsert_next, mirror_next]
    by_cases hx : x = new
    · rw [if_pos hx, if_neg (fun e => hn (hx.symm.trans e)), if_pos hx]
    · rw [if_neg hx, if_neg hx]
  · rw [mirror_prev, listInsert_next, listInsert_prev, mirror_prev]
    by_cases hx : x = new
    · rw [if_pos hx, if_neg (fun e => hp (hx.symm.trans e)), if_pos hx]
    · rw [if_neg hx, if_neg hx]

/-- `list_add_tail` of a node that is not in the circle appends it: it is `list_add`,
backwards. -/
theorem listAddTail_ring {h : Links α} {head new : α} {l : List α} (hr : Ring h head l)
    (hnew : new ∉ head :: l) : Ring (listAddTail h head new) head (l ++ [new]) := by
  have hne : new ≠ head := fun e => hnew (e ▸ List.mem_cons_self ..)
  have hnprev : new ≠ (h head).prev := fun e => hnew (e ▸ hr.prev_mem (List.mem_cons_self ..))
  have hnew' : new ∉ head :: l.reverse := by simpa using hnew
  have hback := listAdd_ring hr.mirror hnew'
  have hsame : mirror (listAddTail h head new) = listAdd (mirror h) head new :=
    listInsert_mirror h hnprev hne
  rw [← hsame, ← List.reverse_concat] at hback
  exact ring_mirror.mp hback

/-! ## Removal -/

/-- Taking the node between two chains out. -/
theorem chain_del {h : Links α} {m b : α} {r : List α} (hr : Chain h m r b) : ∀ {l : List α} {a : α},
    Chain h a l m → (a :: (l ++ m :: r)).Nodup → b ∉ l ++ m :: r → Chain (listDel h m) a (l ++ r) b
  | [], a, ⟨_, hprev⟩, hnd, hb => by
    obtain ⟨ha, hnd⟩ := List.nodup_cons.mp hnd
    cases r with
    | nil =>
      obtain ⟨hnext, _⟩ := hr
      refine ⟨?_, ?_⟩
      · rw [listDel_next, hprev, if_pos rfl, hnext]
      · rw [listDel_prev, hnext, if_pos rfl, hprev]
    | cons x t =>
      obtain ⟨hnext, _, hrest⟩ := hr
      refine ⟨?_, ?_, hrest.congr (fun y hy => ?_) fun y hy => ?_⟩
      · rw [listDel_next, hprev, if_pos rfl, hnext]
      · rw [listDel_prev, hnext, if_pos rfl, hprev]
      · have hya : y ≠ a := fun e => ha (e ▸ List.mem_cons_of_mem _ hy)
        rw [listDel_next, hprev, if_neg hya]
      · have hyx : y ≠ x := by
          rcases hy with hy | rfl
          · exact fun e => (List.nodup_cons.mp (List.nodup_cons.mp hnd).2).1 (e ▸ hy)
          · exact fun e => hb (e ▸ List.mem_cons_of_mem _ (List.mem_cons_self ..))
        rw [listDel_prev, hnext, if_neg hyx]
  | x :: l, a, ⟨hnext, hprev, hrest⟩, hnd, hb => by
    obtain ⟨ha, hnd⟩ := List.nodup_cons.mp hnd
    have hb' : b ∉ l ++ m :: r := fun hm => hb (List.mem_cons_of_mem _ hm)
    -- the neighbours of `m` are behind `a` and behind `x`
    have hap : a ≠ (h m).prev := by
      rw [chain_prev hrest]
      exact fun e => ha (e ▸ List.mem_append_left _ (List.getLast_mem _))
    have hxn : x ≠ (h m).next := by
      rcases hr.next_mem with hm | hm
      · exact fun e => (List.nodup_cons.mp hnd).1
          (e ▸ List.mem_append_right _ (List.mem_cons_of_mem _ hm))
      · exact fun e => hb ((e.trans hm) ▸ List.mem_cons_self ..)
    refine ⟨?_, ?_, chain_del hr hrest hnd hb'⟩
    · rw [listDel_next, if_neg hap, hnext]
    · rw [listDel_prev, if_neg hxn, hprev]

/-- `list_del` of an element takes that element out of the circle. -/
theorem listDel_ring {h : Links α} {head node : α} {l r : List α}
    (hr : Ring h head (l ++ node :: r)) : Ring (listDel h node) head (l ++ r) := by
  obtain ⟨hc, hnd⟩ := hr
  obtain ⟨hleft, hright⟩ := chain_append.mp hc
  refine ⟨chain_del hright hleft hnd (List.nodup_cons.mp hnd).1, hnd.sublist ?_⟩
  exact ((List.sublist_cons_self node r).append_left l).cons_cons head

/-! ## What the operations leave alone -/

section

variable {h : Links α} {head x : α} {l : List α} (hr : Ring h head l)

include hr

theorem listAdd_other {new : α} (hnew : x ≠ new) (hx : x ∉ head :: l) :
    listAdd h head new x = h x :=
  listInsert_other h hnew (fun e => hx (e ▸ List.mem_cons_self ..))
    fun e => hx (e ▸ hr.next_mem (List.mem_cons_self ..))

theorem listAddTail_other {new : α} (hnew : x ≠ new) (hx : x ∉ head :: l) :
    listAddTail h head new x = h x :=
  listInsert_other h hnew (fun e => hx (e ▸ hr.prev_mem (List.mem_cons_self ..)))
    fun e => hx (e ▸ List.mem_cons_self ..)

theorem listDel_other_ring {node : α} (hnode : node ∈ l) (hx : x ∉ head :: l) :
    listDel h node x = h x :=
  listDel_other h (fun e => hx (e ▸ hr.prev_mem (List.mem_cons_of_mem _ hnode)))
    fun e => hx (e ▸ hr.next_mem (List.mem_cons_of_mem _ hnode))

end

/-! ## Renamed nodes -/

section

variable {β : Type} [DecidableEq β] {f : α → β} {h : Links α} {h' : Links β}

/-- `h'` holds at `f n` what `h` holds at `n`, renamed by `f`. -/
def Renames (f : α → β) (h : Links α) (h' : Links β) : Prop :=
  ∀ n, h' (f n) = ⟨f (h n).next, f (h n).prev⟩

variable (hf : Function.Injective f) (hr : Renames f h h')

include hf hr

theorem Renames.setNext (n v : α) :
    Renames f (PepinOS.setNext h n v) (PepinOS.setNext h' (f n) (f v)) := by
  intro m
  unfold PepinOS.setNext
  by_cases hm : m = n
  · rw [hm, Function.update_self, Function.update_self, hr]
  · rw [Function.update_of_ne hm, Function.update_of_ne (fun he => hm (hf he)), hr]

theorem Renames.setPrev (n v : α) :
    Renames f (PepinOS.setPrev h n v) (PepinOS.setPrev h' (f n) (f v)) := by
  intro m
  unfold PepinOS.setPrev
  by_cases hm : m = n
  · rw [hm, Function.update_self, Function.update_self, hr]
  · rw [Function.update_of_ne hm, Function.update_of_ne (fun he => hm (hf he)), hr]

theorem Renames.addTail (head new : α) :
    Renames f (listAddTail h head new) (listAddTail h' (f head) (f new)) := by
  unfold listAddTail listInsert
  rw [hr head]
  exact (((hr.setPrev hf head new).setNext hf new head).setPrev hf new _).setNext hf _ new

end

end PepinOS
