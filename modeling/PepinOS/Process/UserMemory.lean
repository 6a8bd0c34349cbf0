import PepinOS.Process.Switch

/-!
# User memory through the page tables

What the running task reads at a virtual address after the kernel has stored
there. A store of the guarded machine misses the directory and the tables in use,
so it moves no translation; and of bytes that differ modulo 4096 each has its
own place, whatever the pages are mapped to. The two words of a signal frame are
eight such bytes.
-/

namespace PepinOS

theorem inTables_iff {mem : Mem} {cr3 : U32} {pa : Nat} : inTables mem cr3 pa = true ↔
    pa / 4096 = cr3.toNat / 4096 ∨ ∃ e, e < 1024 ∧ tableFrame mem cr3 e = some (pa / 4096) := by
  unfold inTables
  rw [Bool.or_eq_true, List.any_eq_true, beq_iff_eq]
  simp only [List.mem_range, beq_iff_eq]

theorem inTables_dir {mem : Mem} {cr3 : U32} {pa : Nat} (h : inTables mem cr3 pa = false) :
    pa / 4096 ≠ cr3.toNat / 4096 := by
  intro heq
  rw [inTables_iff.mpr (.inl heq)] at h
  cases h

theorem inTables_table {mem : Mem} {cr3 : U32} {pa e t : Nat} (h : inTables mem cr3 pa = false)
    (he : e < 1024) (ht : tableFrame mem cr3 e = some t) : pa / 4096 ≠ t := by
  intro heq
  rw [inTables_iff.mpr (.inr ⟨e, he, by rw [heq]; exact ht⟩)] at h
  cases h

theorem tableFrame_store8 {mem : Mem} {cr3 : U32} {pa e : Nat} (h : inTables mem cr3 pa = false)
    (he : e < 1024) (b : U8) : tableFrame (store8 mem pa b) cr3 e = tableFrame mem cr3 e := by
  refine tableFrame_congr he fun x hx => Function.update_of_ne (fun heq => ?_) ..
  exact inTables_dir h (heq ▸ hx)

/-- A store outside the tables moves no page. -/
theorem pageFrame_store8 {mem : Mem} {cr3 : U32} {pa v : Nat} (h : inTables mem cr3 pa = false)
    (hv : v / 1024 < 1024) (b : U8) : pageFrame (store8 mem pa b) cr3 v = pageFrame mem cr3 v := by
  have htable := tableFrame_store8 h hv b
  have hword : ∀ t, tableFrame mem cr3 (v / 1024) = some t →
      word (store8 mem pa b) (t * 4096) (v % 1024) = word mem (t * 4096) (v % 1024) := by
    intro t ht
    refine word_page_congr (Nat.mod_lt v (by omega)) fun x hx =>
      Function.update_of_ne (fun e => ?_) ..
    exact inTables_table h hv ht (e ▸ hx)
  unfold pageFrame
  rw [htable]
  generalize tableFrame mem cr3 (v / 1024) = o at hword ⊢
  cases o with
  | none => rw [Option.bind_none, Option.bind_none]
  | some t => rw [Option.bind_some, Option.bind_some, hword t rfl]

theorem translate_store8 {mem : Mem} {cr3 : U32} {pa : Nat} (h : inTables mem cr3 pa = false)
    (b : U8) (v : U32) : translate (store8 mem pa b) cr3 v = translate mem cr3 v := by
  have hv : v.toNat / 4096 / 1024 < 1024 := by
    have := v.isLt
    omega
  rw [translate_eq_pageFrame, translate_eq_pageFrame, pageFrame_store8 h hv]

/-- The byte a task finds at virtual address `v`. -/
def userByte (mem : Mem) (cr3 v : U32) : Option U8 := (translate mem cr3 v).map mem

/-- The word a task finds at virtual address `v`. -/
def userWord (mem : Mem) (cr3 v : U32) : Option U32 := do
  let b0 ← userByte mem cr3 v
  let b1 ← userByte mem cr3 (v + 1#32)
  let b2 ← userByte mem cr3 (v + 2#32)
  let b3 ← userByte mem cr3 (v + 3#32)
  return (b3 ++ b2) ++ (b1 ++ b0)

section Stores

variable {l : Link} {cr3 : U32} {s s' : Store}

/-- A translation keeps the offset inside the page. -/
theorem translate_mod {mem : Mem} {v : U32} {pa : Nat} (h : translate mem cr3 v = some pa) :
    pa % 4096 = v.toNat % 4096 := by
  rw [translate_eq_pageFrame, Option.map_eq_some_iff] at h
  obtain ⟨f, _, rfl⟩ := h
  omega

/-- The byte just stored, and any byte at another offset in its page. -/
theorem userStore_byte {va : U32} {b : U8} (h : userStore l.guarded cr3 s va b = .ok s') :
    userByte s'.2 cr3 va = some b ∧
      ∀ v : U32, v.toNat % 4096 ≠ va.toNat % 4096 → userByte s'.2 cr3 v = userByte s.2 cr3 v := by
  obtain ⟨pa, htr, _, hin, rfl⟩ := userStore_guarded h
  unfold userByte
  constructor
  · rw [translate_store8 hin, htr]
    exact congrArg some (Function.update_self ..)
  · intro v hv
    rw [translate_store8 hin]
    cases hv' : translate s.2 cr3 v with
    | none => rfl
    | some pa' =>
      have hne : pa' ≠ pa := by
        intro e
        have h1 := translate_mod hv'
        have h2 := translate_mod htr
        rw [e] at h1
        omega
      exact congrArg some (Function.update_of_ne hne ..)

/-- Byte `k` of an address range, at its own offset. -/
theorem add_mod_ne {va : U32} {j k : Nat} (hj : j < 4096) (hk : k < 4096) (h : j ≠ k) :
    (va + BitVec.ofNat 32 j).toNat % 4096 ≠ (va + BitVec.ofNat 32 k).toNat % 4096 := by
  rw [BitVec.toNat_add, BitVec.toNat_add, BitVec.toNat_ofNat, BitVec.toNat_ofNat]
  have := va.isLt
  omega

/-- The four bytes of a stored word, and any byte at another offset in its page. -/
theorem userStore32_bytes {va w : U32} (h : userStore32 l.guarded cr3 s va w = .ok s') :
    (∀ k, k < 4 → userByte s'.2 cr3 (va + BitVec.ofNat 32 k) = some (byteOf w k)) ∧
      ∀ v : U32, (∀ k, k < 4 → v.toNat % 4096 ≠ (va + BitVec.ofNat 32 k).toNat % 4096) →
        userByte s'.2 cr3 v = userByte s.2 cr3 v := by
  obtain ⟨s1, s2, s3, h0, h1, h2, h3⟩ := userStore32_cases h
  have hz : va + BitVec.ofNat 32 0 = va := BitVec.add_zero va
  rw [← hz] at h0
  obtain ⟨b0, o0⟩ := userStore_byte h0
  obtain ⟨b1, o1⟩ := userStore_byte h1
  obtain ⟨b2, o2⟩ := userStore_byte h2
  obtain ⟨b3, o3⟩ := userStore_byte h3
  have ne : ∀ j k, j < 8 → k < 8 → j ≠ k →
      (va + BitVec.ofNat 32 j).toNat % 4096 ≠ (va + BitVec.ofNat 32 k).toNat % 4096 :=
    fun j k hj hk h => add_mod_ne (by omega) (by omega) h
  constructor
  · intro k hk
    rcases (show k = 0 ∨ k = 1 ∨ k = 2 ∨ k = 3 by omega) with rfl | rfl | rfl | rfl
    · rw [o3 _ (ne 0 3 (by omega) (by omega) (by omega)),
        o2 _ (ne 0 2 (by omega) (by omega) (by omega)),
        o1 _ (ne 0 1 (by omega) (by omega) (by omega))]
      exact b0
    · rw [o3 _ (ne 1 3 (by omega) (by omega) (by omega)),
        o2 _ (ne 1 2 (by omega) (by omega) (by omega))]
      exact b1
    · rw [o3 _ (ne 2 3 (by omega) (by omega) (by omega))]
      exact b2
    · exact b3
  · intro v hv
    rw [o3 v (hv 3 (by omega)), o2 v (hv 2 (by omega)), o1 v (hv 1 (by omega)),
      o0 v (hv 0 (by omega))]

theorem userWord_of_bytes {mem : Mem} {va w : U32}
    (h : ∀ k, k < 4 → userByte mem cr3 (va + BitVec.ofNat 32 k) = some (byteOf w k)) :
    userWord mem cr3 va = some w := by
  have h0 : userByte mem cr3 va = some (byteOf w 0) := by
    have hz := h 0 (by omega)
    rwa [show va + BitVec.ofNat 32 0 = va from BitVec.add_zero va] at hz
  unfold userWord
  rw [h0, show userByte mem cr3 (va + 1#32) = _ from h 1 (by omega),
    show userByte mem cr3 (va + 2#32) = _ from h 2 (by omega),
    show userByte mem cr3 (va + 3#32) = _ from h 3 (by omega)]
  exact congrArg some (bytes_eq_word w)

/-- **The handler's call frame** as the task finds it: a zero at the top of the stack, the
signal number above it. -/
theorem FrameWritten.words {esp : U32} {sig : Fin 32} {mem mem' : Mem}
    (h : FrameWritten l cr3 esp sig mem mem') :
    userWord mem' cr3 (esp - 8#32) = some 0#32 ∧
      userWord mem' cr3 (esp - 8#32 + 4#32) = some (BitVec.ofNat 32 sig.val) := by
  obtain ⟨k, mem1, h1, h2⟩ := h
  obtain ⟨b1, _⟩ := userStore32_bytes h1
  obtain ⟨b2, o2⟩ := userStore32_bytes h2
  have htop : esp - 4#32 = esp - 8#32 + 4#32 := by
    bv_omega
  refine ⟨userWord_of_bytes b2, userWord_of_bytes fun j hj => ?_⟩
  have haddr : esp - 8#32 + 4#32 + BitVec.ofNat 32 j = esp - 8#32 + BitVec.ofNat 32 (4 + j) := by
    rw [BitVec.add_assoc, BitVec.ofNat_add]
  rw [haddr, o2 _ fun i hi => add_mod_ne (by omega) (by omega) (by omega), ← haddr, ← htop]
  exact b1 j hj

end Stores

/-! ## Stores that go through -/

theorem userStore32_of {l : Link} {cr3 va : U32} {s s1 s2 s3 s4 : Store} {w : U32}
    (h0 : userStore l cr3 s va (byteOf w 0) = .ok s1)
    (h1 : userStore l cr3 s1 (va + 1#32) (byteOf w 1) = .ok s2)
    (h2 : userStore l cr3 s2 (va + 2#32) (byteOf w 2) = .ok s3)
    (h3 : userStore l cr3 s3 (va + 3#32) (byteOf w 3) = .ok s4) :
    userStore32 l cr3 s va w = .ok s4 := by
  unfold userStore32
  rw [h0, ok_bind, h1, ok_bind, h2, ok_bind, h3]

theorem inTables_store8 {mem : Mem} {cr3 : U32} {pa pa' : Nat} (h : inTables mem cr3 pa = false)
    (b : U8) : inTables (store8 mem pa b) cr3 pa' = inTables mem cr3 pa' := by
  rw [Bool.eq_iff_iff, inTables_iff, inTables_iff]
  constructor
  · rintro (hdir | ⟨e, he, ht⟩)
    · exact .inl hdir
    · exact .inr ⟨e, he, by rw [← ht, tableFrame_store8 h he]⟩
  · rintro (hdir | ⟨e, he, ht⟩)
    · exact .inl hdir
    · exact .inr ⟨e, he, by rw [tableFrame_store8 h he, ht]⟩

/-- The word at `va` is ordinary memory, at `pa`. -/
structure Ordinary (l : Link) (mem : Mem) (cr3 va : U32) (pa : Nat) : Prop where
  mapped : ∀ j, j < 4 → translate mem cr3 (va + BitVec.ofNat 32 j) = some (pa + j)
  notOwned : ∀ j, j < 4 → l.owns (pa + j) = false
  outside : ∀ j, j < 4 → inTables mem cr3 (pa + j) = false

theorem Ordinary.store8 {l : Link} {mem : Mem} {cr3 va : U32} {pa p : Nat}
    (h : Ordinary l mem cr3 va pa) (hp : inTables mem cr3 p = false) (b : U8) :
    Ordinary l (store8 mem p b) cr3 va pa := by
  refine ⟨fun j hj => ?_, h.notOwned, fun j hj => ?_⟩
  · rw [translate_store8 hp]
    exact h.mapped j hj
  · rw [inTables_store8 hp]
    exact h.outside j hj

/-- A word stored to ordinary memory, the rest of ordinary memory staying so. -/
theorem userStore32_ordinary {l : Link} {mem : Mem} {cr3 va : U32} {pa : Nat} (k : Kernel)
    (h : Ordinary l mem cr3 va pa) (w : U32) :
    ∃ mem', userStore32 l cr3 (k, mem) va w = .ok (k, mem') ∧
      ∀ va' pa', Ordinary l mem cr3 va' pa' → Ordinary l mem' cr3 va' pa' := by
  have hone : ∀ {mem : Mem} (j : Nat) (b : U8), j < 4 → Ordinary l mem cr3 va pa →
      userStore l cr3 (k, mem) (va + BitVec.ofNat 32 j) b = .ok (k, PepinOS.store8 mem (pa + j) b) := by
    intro mem j b hj ho
    unfold userStore
    simp only [ho.mapped j hj, ho.notOwned j hj, ho.outside j hj, Bool.or_self, Bool.false_eq_true,
      if_false]
  have h0 := hone 0 (byteOf w 0) (by omega) h
  rw [show va + BitVec.ofNat 32 0 = va from BitVec.add_zero va] at h0
  have o0 := h.outside 0 (by omega)
  have a1 := h.store8 o0 (byteOf w 0)
  have o1 := a1.outside 1 (by omega)
  have a2 := a1.store8 o1 (byteOf w 1)
  have o2 := a2.outside 2 (by omega)
  have a3 := a2.store8 o2 (byteOf w 2)
  have o3 := a3.outside 3 (by omega)
  refine ⟨_, userStore32_of h0 (hone 1 _ (by omega) a1) (hone 2 _ (by omega) a2)
    (hone 3 (byteOf w 3) (by omega) a3), fun va' pa' h' => ?_⟩
  exact (((h'.store8 o0 _).store8 o1 _).store8 o2 _).store8 o3 _

end PepinOS
