import PepinOS.Fs.Ext2

/-!
# The node pool

`fs/vfs.c`: the static pool of open files, shared by all tasks. A pointer into
it is an index.
-/

namespace PepinOS

/-- What a `vfs_read_fn` can point to. -/
inductive ReadFn where
  | ext2NodeRead
  deriving DecidableEq

/-- `fs_node_t`. -/
structure FsNode where
  name : Nat → U8
  flags : U32
  inode : U32
  length : U32
  read : Option ReadFn
  used : Bool

/-- `node_pool`. -/
abbrev NodePool := Fin 8 → FsNode

def fsFile : U32 := 1#32

def vfsInit (pool : NodePool) : NodePool := fun i => { pool i with used := false }

/-- The copy of the name: at most 63 bytes and the NUL. -/
def copyName (fetch : U32 → Except Trap U8) (path : U32) :
    Nat → Nat → (Nat → U8) → Except Trap (Nat → U8)
  | 0, i, name => return store8 name i 0#8
  | n + 1, i, name => do
    let c ← fetch (path + BitVec.ofNat 32 i)
    if c = 0#8 then return store8 name i 0#8
    copyName fetch path n (i + 1) (store8 name i c)

/-- The first free entry of the pool. -/
def freeNode (pool : NodePool) : Option (Fin 8) := (List.finRange 8).find? fun i => !(pool i).used

/-- `vfs_open`, with the pool and the driver's variables. -/
def vfsOpen (disk : Disk) (behind : Ext2 → Nat → U8) (fetch : Ext2 → U32 → Except Trap U8)
    (pool : NodePool) (e : Ext2) (path : U32) : Except Trap (NodePool × Ext2 × Option (Fin 8)) :=
  match freeNode pool with
  | none => return (pool, e, none)
  | some i => do
    let c ← fetch e path
    let path := if c = 0x2F#8 then path + 1#32 else path
    let (e, ino) ← ext2Find disk behind fetch e ext2RootInode path
    if ino = 0#32 then return (pool, e, none)
    let (e, length) ← ext2InodeSize disk e ino
    let name ← copyName (fetch e) path 63 0 (pool i).name
    let node : FsNode :=
      { name := name, flags := fsFile, inode := ino, length := length,
        read := some .ext2NodeRead, used := true }
    return (Function.update pool i node, e, some i)

/-- `vfs_close`. -/
def vfsClose (pool : NodePool) : Option (Fin 8) → NodePool
  | none => pool
  | some i => Function.update pool i { pool i with used := false }

/-- `vfs_read`. -/
def vfsRead {M : Type} (disk : Disk) (store : M → U32 → U8 → Except Trap M) (pool : NodePool)
    (e : Ext2) (m : M) (node : Option (Fin 8)) (offset size buf : U32) :
    Except Trap (Ext2 × Copied M) :=
  match node with
  | none => return (e, ⟨m, []⟩)
  | some i =>
    match (pool i).read with
    | none => return (e, ⟨m, []⟩)
    | some .ext2NodeRead => ext2Pread disk store e m (pool i).inode buf offset size

theorem freeNode_used {pool : NodePool} {i : Fin 8} (h : freeNode pool = some i) :
    (pool i).used = false := by
  have hb := List.find?_some h
  simpa using hb

/-- The path `ext2_find` gets: a leading slash is skipped. -/
def pathName (fetch : U32 → Except Trap U8) (path : U32) : Except Trap U32 := do
  let c ← fetch path
  return if c = 0x2F#8 then path + 1#32 else path

/-- The inode a path names: what `ext2_find` finds in the root directory. -/
def Names (disk : Disk) (behind : Ext2 → Nat → U8) (fetch : Ext2 → U32 → Except Trap U8)
    (e : Ext2) (path ino : U32) : Prop :=
  ∃ p e', pathName (fetch e) path = .ok p ∧
    ext2Find disk behind fetch e ext2RootInode p = .ok (e', ino)

/-- `vfs_open` gives no node and leaves the pool, or takes a free entry for the inode
the path names. -/
theorem vfsOpen_cases {disk : Disk} {behind : Ext2 → Nat → U8}
    {fetch : Ext2 → U32 → Except Trap U8} {pool pool' : NodePool} {e e' : Ext2} {path : U32}
    {node : Option (Fin 8)}
    (h : vfsOpen disk behind fetch pool e path = .ok (pool', e', node)) :
    e'.vol = e.vol ∧ ((node = none ∧ pool' = pool) ∨ ∃ i n, node = some i ∧
      (pool i).used = false ∧ pool' = Function.update pool i n ∧ n.used = true ∧
      n.read = some .ext2NodeRead ∧ Names disk behind fetch e path n.inode) := by
  unfold vfsOpen at h
  split at h
  next =>
    cases h
    exact ⟨rfl, .inl ⟨rfl, rfl⟩⟩
  next i hi =>
    obtain ⟨c, hc, h⟩ := bind_ok h
    obtain ⟨⟨e1, ino⟩, hfind, h⟩ := bind_ok h
    have hv1 := ext2Find_vol hfind
    simp only at h
    split at h
    next =>
      cases h
      exact ⟨hv1, .inl ⟨rfl, rfl⟩⟩
    next =>
      obtain ⟨⟨e2, length⟩, hsize, h⟩ := bind_ok h
      have hv2 := ext2InodeSize_vol hsize
      obtain ⟨name, _, h⟩ := bind_ok h
      cases h
      refine ⟨hv2.trans hv1, .inr ⟨i, _, rfl, freeNode_used hi, rfl, rfl, rfl, _, e1, ?_, hfind⟩⟩
      unfold pathName
      rw [hc]
      rfl

theorem vfsRead_keeps {M : Type} {store : M → U32 → U8 → Except Trap M} {P : M → Prop}
    {disk : Disk} (hstore : ∀ m va b m', P m → store m va b = .ok m' → P m') {pool : NodePool}
    {e e' : Ext2} {m : M} {node : Option (Fin 8)} {offset size buf : U32} {c : Copied M}
    (h : vfsRead disk store pool e m node offset size buf = .ok (e', c)) (hP : P m) :
    P c.port ∧ e'.vol = e.vol ∧ c.bytes.length < 65536 := by
  unfold vfsRead at h
  split at h
  next =>
    cases h
    exact ⟨hP, rfl, by simp⟩
  next i =>
    split at h
    next =>
      cases h
      exact ⟨hP, rfl, by simp⟩
    next => exact ext2Pread_keeps hstore h hP

end PepinOS
