import Dwnx.Basic
import Mathlib.Logic.Function.Basic

/-!
# The skip list

`dwnx_ksl` is a tree of blocks, each with a list of keys and nodes. The nodes of a leaf
hold data, those of other blocks hold blocks, all of the same height, so the blocks of a
height are a type (`Tree`). The blocks of a height are also linked in both directions. The
links, which the iterators follow through the leaves, are kept by address (`Links`).

`none` as the outcome of a function is a failed assertion, or the use of a block or a node
that is not there. Memory for a block can always be had.
-/

namespace Dwnx

/-- `DWNX_KSL_MAX_NBLK` -/
def kslMaxNblk : ℕ := 32

/-- `DWNX_KSL_MIN_NBLK` -/
def kslMinNblk : ℕ := 16

namespace Ksl

/-! ## Blocks -/

/-- `dwnx_ksl_blk`: where it is, and its keys with their nodes. -/
structure Blk (κ α : Type) where
  addr : ℕ
  nodes : List (κ × α)

/-- `dwnx_ksl_node`: data, or a block. -/
abbrev Node (κ ν : Type) : ℕ → Type
  | 0 => ν
  | h + 1 => Blk κ (Node κ ν h)

/-- A block of height `h`, a leaf if that is `0`. -/
abbrev Tree (κ ν : Type) (h : ℕ) := Blk κ (Node κ ν h)

/-- The pointers between blocks, and the address of the next block allocated. -/
structure Links where
  next : ℕ → Option ℕ
  prev : ℕ → Option ℕ
  front : Option ℕ
  back : Option ℕ
  fresh : ℕ

/-- `dwnx_ksl_it`; without a block it points to `null_blk`. -/
structure It where
  blk : Option ℕ
  i : ℕ
  deriving DecidableEq

variable {κ ν α : Type} {h : ℕ}

namespace Blk

/-- `n` -/
def n (blk : Blk κ α) : ℕ := blk.nodes.length

/-- The function of `dwnx_ksl_search_def`: the first key not before `key`. -/
def search (compar : κ → κ → Bool) (blk : Blk κ α) (key : κ) : ℕ :=
  blk.nodes.findIdx fun e => !compar e.1 key

/-- The key at `n - 1`. -/
def lastKey (blk : Blk κ α) : Option κ := blk.nodes.getLast?.map Prod.fst

/-- The block with the node at `i` changed. -/
def setNode (blk : Blk κ α) (i : ℕ) (node : α) : Blk κ α :=
  { blk with nodes := blk.nodes.modify i fun e => (e.1, node) }

/-- `ksl_set_nth_key` -/
def setNthKey (blk : Blk κ α) (i : ℕ) (key : κ) : Blk κ α :=
  { blk with nodes := blk.nodes.modify i fun e => (key, e.2) }

/-- `ksl_insert_node` -/
def insertNode (blk : Blk κ α) (i : ℕ) (key : κ) (node : α) : Option (Blk κ α) :=
  if blk.n < kslMaxNblk then some { blk with nodes := blk.nodes.insertIdx i (key, node) } else none

/-- `ksl_remove_node` -/
def removeNode (blk : Blk κ α) (i : ℕ) : Blk κ α := { blk with nodes := blk.nodes.eraseIdx i }

end Blk

namespace Links

/-- A new block, linked to no other. -/
def alloc (links : Links) : Links :=
  { links with
    next := Function.update links.next links.fresh none
    prev := Function.update links.prev links.fresh none
    fresh := links.fresh + 1 }

/-- The links of `ksl_split_blk`, for a new block behind `blk`. -/
def insertAfter (links : Links) (blk : ℕ) : Links :=
  let rblk := links.fresh
  let next := links.next blk
  { next := Function.update (Function.update links.next rblk next) blk (some rblk)
    prev :=
      let prev :=
        match next with
        | some x => Function.update links.prev x (some rblk)
        | none => links.prev
      Function.update prev rblk (some blk)
    front := links.front
    back := if next = none ∧ links.back = some blk then some rblk else links.back
    fresh := rblk + 1 }

/-- The links of `ksl_merge_node`, which frees `rblk`. -/
def unlink (links : Links) (lblk rblk : ℕ) : Links :=
  let next := links.next rblk
  { links with
    next := Function.update links.next lblk next
    prev :=
      match next with
      | some x => Function.update links.prev x (some lblk)
      | none => links.prev
    back := if next = none ∧ links.back = some rblk then some lblk else links.back }

/-- The iterator at `i` of a leaf, moved to the next leaf if that is behind its last node. -/
def it (links : Links) (blk : Blk κ ν) (i : ℕ) : It :=
  match links.next blk.addr with
  | some next => if i = blk.n then ⟨some next, 0⟩ else ⟨some blk.addr, i⟩
  | none => ⟨some blk.addr, i⟩

end Links

/-! ## Splitting -/

/-- `ksl_split_blk` -/
def splitBlk (blk : Blk κ α) (links : Links) : Option (Blk κ α × Blk κ α × Links) :=
  let rn := blk.n / 2
  let n := blk.n - rn
  if kslMinNblk ≤ n ∧ kslMinNblk ≤ rn then
    some ({ blk with nodes := blk.nodes.take n }, ⟨links.fresh, blk.nodes.drop n⟩,
      links.insertAfter blk.addr)
  else none

/-- `ksl_split_node` -/
def splitNode (blk : Blk κ (Blk κ α)) (i : ℕ) (links : Links) :
    Option (Blk κ (Blk κ α) × Links) := do
  let (key, lblk) ← blk.nodes[i]?
  let (lblk, rblk, links) ← splitBlk lblk links
  let lkey ← lblk.lastKey
  let nodes := blk.nodes.take i ++ (lkey, lblk) :: (key, rblk) :: blk.nodes.drop (i + 1)
  some ({ blk with nodes }, links)

/-- `ksl_split_root` -/
def splitRoot (root : Blk κ α) (links : Links) : Option (Blk κ (Blk κ α) × Links) := do
  let nroot := links.fresh
  let (lblk, rblk, links) ← splitBlk root links.alloc
  let lkey ← lblk.lastKey
  let rkey ← rblk.lastKey
  some (⟨nroot, [(lkey, lblk), (rkey, rblk)]⟩, links)

/-! ## Insertion -/

/-- The inner loop of `dwnx_ksl_insert`, of a key behind all the keys of `blk`. -/
def extend (key : κ) (data : ν) :
    (h : ℕ) → Tree κ ν h → Links → Option (It × Tree κ ν h × Links)
  | 0, blk, links => do
    let blk' ← blk.insertNode blk.n key data
    some (⟨some blk.addr, blk'.n - 1⟩, blk', links)
  | h + 1, blk, links => do
    let (_, node) ← blk.nodes[blk.n - 1]?
    let (blk, links) ← if node.n = kslMaxNblk then splitNode blk (blk.n - 1) links
      else some (blk, links)
    let (_, node) ← blk.nodes[blk.n - 1]?
    let blk := blk.setNthKey (blk.n - 1) key
    let (it, node, links) ← extend key data h node links
    some (it, blk.setNode (blk.n - 1) node, links)

/-- The loop of `dwnx_ksl_insert`. There is no iterator if the key is present. -/
def insertLoop (compar : κ → κ → Bool) (key : κ) (data : ν) :
    (h : ℕ) → Tree κ ν h → Links → Option (Option It × Tree κ ν h × Links)
  | 0, blk, links =>
    let i := blk.search compar key
    if blk.nodes[i]?.any fun e => !compar key e.1 then some (none, blk, links)
    else do
      let blk' ← blk.insertNode i key data
      some (some ⟨some blk.addr, i⟩, blk', links)
  | h + 1, blk, links =>
    let i := blk.search compar key
    if i = blk.n then do
      let (it, blk, links) ← extend key data (h + 1) blk links
      some (some it, blk, links)
    else do
      let (_, node) ← blk.nodes[i]?
      let (blk, i, links) ←
        if node.n = kslMaxNblk then do
          let (blk, links) ← splitNode blk i links
          let (lkey, _) ← blk.nodes[i]?
          some (blk, if compar lkey key then i + 1 else i, links)
        else some (blk, i, links)
      let (_, node) ← blk.nodes[i]?
      let (it, node, links) ← insertLoop compar key data h node links
      some (it, blk.setNode i node, links)

/-! ## Removal -/

/-- `ksl_merge_node`, of blocks under a root that is left with another one, or under a block
    that is not the root. -/
def mergeNode (blk : Blk κ (Blk κ α)) (i : ℕ) (links : Links) :
    Option (Blk κ (Blk κ α) × Links) := do
  let (_, lblk) ← blk.nodes[i]?
  let (_, rblk) ← blk.nodes[i + 1]?
  if lblk.n + rblk.n ≤ kslMaxNblk then
    let links := links.unlink lblk.addr rblk.addr
    let lblk := { lblk with nodes := lblk.nodes ++ rblk.nodes }
    let lkey ← lblk.lastKey
    some (((blk.setNode i lblk).removeNode (i + 1)).setNthKey i lkey, links)
  else none

/-- `ksl_shift_left` -/
def shiftLeft (blk : Blk κ (Blk κ α)) (i : ℕ) : Option (Blk κ (Blk κ α)) := do
  if i = 0 then none
  else
    let (_, lblk) ← blk.nodes[i - 1]?
    let (_, rblk) ← blk.nodes[i]?
    let n := (lblk.n + rblk.n + 1) / 2 - lblk.n
    if lblk.n < kslMaxNblk ∧ kslMinNblk < rblk.n ∧
        0 < n ∧ lblk.n ≤ kslMaxNblk - n ∧ kslMinNblk + n ≤ rblk.n then
      let lblk := { lblk with nodes := lblk.nodes ++ rblk.nodes.take n }
      let rblk := { rblk with nodes := rblk.nodes.drop n }
      let lkey ← lblk.lastKey
      some (((blk.setNode (i - 1) lblk).setNthKey (i - 1) lkey).setNode i rblk)
    else none

/-- `ksl_shift_right` -/
def shiftRight (blk : Blk κ (Blk κ α)) (i : ℕ) : Option (Blk κ (Blk κ α)) := do
  let (_, lblk) ← blk.nodes[i]?
  let (_, rblk) ← blk.nodes[i + 1]?
  let n := (lblk.n + rblk.n + 1) / 2 - rblk.n
  if kslMinNblk < lblk.n ∧ rblk.n < kslMaxNblk ∧
      0 < n ∧ kslMinNblk + n ≤ lblk.n ∧ rblk.n ≤ kslMaxNblk - n then
    let rblk := { rblk with nodes := lblk.nodes.drop (lblk.n - n) ++ rblk.nodes }
    let lblk := { lblk with nodes := lblk.nodes.take (lblk.n - n) }
    let lkey ← lblk.lastKey
    some (((blk.setNode (i + 1) rblk).setNode i lblk).setNthKey i lkey)
  else none

/-- The part of the loop of `dwnx_ksl_remove` that makes sure that the node it goes on to, the
    one at `i`, has more than the minimum of nodes. It may end up at another position. -/
def fillNode (blk : Blk κ (Blk κ α)) (i : ℕ) (links : Links) :
    Option (Blk κ (Blk κ α) × ℕ × Links) := do
  let (_, node) ← blk.nodes[i]?
  if kslMinNblk < node.n then some (blk, i, links)
  else if node.n ≠ kslMinNblk then none
  else if blk.nodes[i + 1]?.any fun e => kslMinNblk < e.2.n then do
    some (← shiftLeft blk (i + 1), i, links)
  else if 0 < i ∧ blk.nodes[i - 1]?.any fun e => kslMinNblk < e.2.n then do
    some (← shiftRight blk (i - 1), i, links)
  else if i + 1 < blk.n then do
    let (blk, links) ← mergeNode blk i links
    some (blk, i, links)
  else if 0 < i then do
    let (blk, links) ← mergeNode blk (i - 1) links
    some (blk, i - 1, links)
  else none

/-- The loop of `dwnx_ksl_remove` in a leaf. There is no iterator if the key is absent. -/
def removeLeaf (compar : κ → κ → Bool) (key : κ) (blk : Blk κ ν) (links : Links) :
    Option It × Blk κ ν :=
  let i := blk.search compar key
  match blk.nodes[i]? with
  | none => (none, blk)
  | some (k, _) =>
    if compar key k then (none, blk)
    else
      let blk := blk.removeNode i
      (some (links.it blk i), blk)

/-- The loop of `dwnx_ksl_remove`, from a block that is not the root. -/
def removeLoop (compar : κ → κ → Bool) (key : κ) :
    (h : ℕ) → Tree κ ν h → Links → Option (Option It × Tree κ ν h × Links)
  | 0, blk, links =>
    let (it, blk) := removeLeaf compar key blk links
    some (it, blk, links)
  | h + 1, blk, links =>
    let i := blk.search compar key
    if i = blk.n then some (none, blk, links)
    else do
      let (blk, i, links) ← fillNode blk i links
      let (_, node) ← blk.nodes[i]?
      let (it, node, links) ← removeLoop compar key h node links
      some (it, blk.setNode i node, links)

/-- The loop of `dwnx_ksl_remove`, from the root. A root whose two blocks are merged into one
    gives way to that block. -/
def removeRoot (compar : κ → κ → Bool) (key : κ) :
    (h : ℕ) → Tree κ ν h → Links → Option (Option It × (Σ h, Tree κ ν h) × Links)
  | 0, blk, links =>
    let (it, blk) := removeLeaf compar key blk links
    some (it, ⟨0, blk⟩, links)
  | h + 1, blk, links =>
    let i := blk.search compar key
    if i = blk.n then some (none, ⟨h + 1, blk⟩, links)
    else do
      let (blk, i, links) ← fillNode blk i links
      let (_, node) ← blk.nodes[i]?
      if blk.n = 1 then removeRoot compar key h node links
      else
        let (it, node, links) ← removeLoop compar key h node links
        some (it, ⟨h + 1, blk.setNode i node⟩, links)

/-- The merge in front of the loop of `dwnx_ksl_remove`, of the only two blocks of the root. -/
def mergeRoot : (h : ℕ) → Tree κ ν h → Links → Option ((Σ h, Tree κ ν h) × Links)
  | 0, blk, links => some (⟨0, blk⟩, links)
  | h + 1, blk, links =>
    match blk.nodes with
    | [(_, lblk), (_, rblk)] =>
      if lblk.n = kslMinNblk ∧ rblk.n = kslMinNblk then
        if lblk.n + rblk.n ≤ kslMaxNblk then
          some (⟨h, { lblk with nodes := lblk.nodes ++ rblk.nodes }⟩,
            links.unlink lblk.addr rblk.addr)
        else none
      else some (⟨h + 1, blk⟩, links)
    | _ => some (⟨h + 1, blk⟩, links)

/-! ## Leaves -/

/-- The leaves under a block, in order. -/
def leaves : (h : ℕ) → Tree κ ν h → List (Blk κ ν)
  | 0, blk => [blk]
  | h + 1, blk => blk.nodes.flatMap fun e => leaves h e.2

/-- The tree with the leaf at an address changed, as through a pointer to it. -/
def modifyLeaf (addr : ℕ) (f : Blk κ ν → Blk κ ν) : (h : ℕ) → Tree κ ν h → Tree κ ν h
  | 0, blk => if blk.addr = addr then f blk else blk
  | h + 1, blk => { blk with nodes := blk.nodes.map fun e => (e.1, modifyLeaf addr f h e.2) }

/-! ## Search and change of a key -/

/-- The last leaf under a block. -/
def lastLeaf : (h : ℕ) → Tree κ ν h → Option (Blk κ ν)
  | 0, blk => some blk
  | h + 1, blk => do
    let (_, node) ← blk.nodes[blk.n - 1]?
    lastLeaf h node

/-- The loop of `dwnx_ksl_lower_bound_search`. -/
def lowerBoundLoop (compar : κ → κ → Bool) (key : κ) (links : Links) :
    (h : ℕ) → Tree κ ν h → Option It
  | 0, blk => some (links.it blk (blk.search compar key))
  | h + 1, blk =>
    let i := blk.search compar key
    if i = blk.n then do
      let leaf ← lastLeaf (h + 1) blk
      some (links.it leaf leaf.n)
    else do
      let (_, node) ← blk.nodes[i]?
      lowerBoundLoop compar key links h node

/-- `key_equal` -/
def keyEqual (compar : κ → κ → Bool) (lhs rhs : κ) : Bool := !compar lhs rhs && !compar rhs lhs

/-- The loop of `dwnx_ksl_update_key`. -/
def updateKeyLoop (compar : κ → κ → Bool) (oldKey newKey : κ) :
    (h : ℕ) → Tree κ ν h → Option (Tree κ ν h)
  | 0, blk => do
    let i := blk.search compar oldKey
    let (nodeKey, _) ← blk.nodes[i]?
    if keyEqual compar nodeKey oldKey then some (blk.setNthKey i newKey) else none
  | h + 1, blk => do
    let i := blk.search compar oldKey
    let (nodeKey, node) ← blk.nodes[i]?
    let blk := if keyEqual compar nodeKey oldKey || compar nodeKey newKey then
      blk.setNthKey i newKey else blk
    let node ← updateKeyLoop compar oldKey newKey h node
    some (blk.setNode i node)

end Ksl

/-! ## The list -/

/-- `dwnx_ksl` -/
structure Ksl (κ ν : Type) where
  /-- The root with its height, or `NULL`. -/
  root : Option (Σ h, Ksl.Tree κ ν h)
  links : Ksl.Links
  n : ℕ

namespace Ksl

variable {κ ν : Type}

/-- `dwnx_ksl_init` -/
def init : Ksl κ ν := ⟨none, ⟨fun _ => none, fun _ => none, none, none, 0⟩, 0⟩

/-- `dwnx_ksl_len` -/
def len (ksl : Ksl κ ν) : ℕ := ksl.n

/-- The leaf at an address. -/
def leafAt (ksl : Ksl κ ν) (addr : ℕ) : Option (Blk κ ν) := do
  let ⟨h, root⟩ ← ksl.root
  (leaves h root).find? fun blk => blk.addr = addr

/-- The keys and data of the block of an iterator, `null_blk` without one. -/
def itNodes (ksl : Ksl κ ν) (it : It) : Option (List (κ × ν)) :=
  match it.blk with
  | none => some []
  | some addr => (ksl.leafAt addr).map Blk.nodes

/-- `dwnx_ksl_begin` -/
def begin (ksl : Ksl κ ν) : It :=
  match ksl.root with
  | none => ⟨none, 0⟩
  | some _ => ⟨ksl.links.front, 0⟩

/-- `dwnx_ksl_end` -/
def end' (ksl : Ksl κ ν) : Option It :=
  match ksl.root with
  | none => some ⟨none, 0⟩
  | some _ => do
    let addr ← ksl.links.back
    let blk ← ksl.leafAt addr
    some ⟨some addr, blk.n⟩

/-- `dwnx_ksl_it_key`, and `dwnx_ksl_it_get` -/
def itGet (ksl : Ksl κ ν) (it : It) : Option (κ × ν) := do
  let nodes ← ksl.itNodes it
  nodes[it.i]?

/-- `dwnx_ksl_it_next` -/
def itNext (ksl : Ksl κ ν) (it : It) : Option It := do
  let nodes ← ksl.itNodes it
  match it.blk.bind ksl.links.next with
  | some next => some (if it.i + 1 = nodes.length then ⟨some next, 0⟩ else ⟨it.blk, it.i + 1⟩)
  | none => some ⟨it.blk, it.i + 1⟩

/-- `dwnx_ksl_it_begin` -/
def itBegin (ksl : Ksl κ ν) (it : It) : Bool := it.i = 0 ∧ it.blk.bind ksl.links.prev = none

/-- `dwnx_ksl_it_end` -/
def itEnd (ksl : Ksl κ ν) (it : It) : Option Bool := do
  let nodes ← ksl.itNodes it
  some (nodes.length = it.i ∧ it.blk.bind ksl.links.next = none)

/-- `dwnx_ksl_it_prev` -/
def itPrev (ksl : Ksl κ ν) (it : It) : Option It :=
  if ksl.itBegin it then none
  else if it.i = 0 then do
    let it := { it with blk := it.blk.bind ksl.links.prev }
    let nodes ← ksl.itNodes it
    some { it with i := nodes.length - 1 }
  else some { it with i := it.i - 1 }

/-- `ksl_root_init` -/
def rootInit (ksl : Ksl κ ν) : Tree κ ν 0 × Links :=
  (⟨ksl.links.fresh, []⟩,
    { ksl.links.alloc with front := some ksl.links.fresh, back := some ksl.links.fresh })

/-- `dwnx_ksl_insert`, with the iterator it returns. -/
def insert (compar : κ → κ → Bool) (ksl : Ksl κ ν) (key : κ) (data : ν) :
    Option (Except Err Unit × It × Ksl κ ν) := do
  let (⟨h, root⟩, links) : (Σ h, Tree κ ν h) × Links :=
    match ksl.root with
    | none =>
      let (root, links) := ksl.rootInit
      (⟨0, root⟩, links)
    | some root => (root, ksl.links)
  let (⟨h, root⟩, links) ←
    if root.n = kslMaxNblk then do
      let (root, links) ← splitRoot root links
      some ((⟨h + 1, root⟩ : Σ h, Tree κ ν h), links)
    else some (⟨h, root⟩, links)
  let (it, root, links) ← insertLoop compar key data h root links
  match it with
  | some it => some (.ok (), it, ⟨some ⟨h, root⟩, links, ksl.n + 1⟩)
  | none =>
    let ksl : Ksl κ ν := ⟨some ⟨h, root⟩, links, ksl.n⟩
    some (.error .invalidArgument, ← ksl.end', ksl)

/-- `dwnx_ksl_remove`, with the iterator it returns, which is left alone if there is no
    root. -/
def remove (compar : κ → κ → Bool) (ksl : Ksl κ ν) (key : κ) :
    Option (Except Err Unit × Option It × Ksl κ ν) :=
  match ksl.root with
  | none => some (.error .invalidArgument, none, ksl)
  | some ⟨h, root⟩ => do
    let (⟨h, root⟩, links) ← mergeRoot h root ksl.links
    let (it, root, links) ← removeRoot compar key h root links
    match it with
    | some it => some (.ok (), some it, ⟨some root, links, ksl.n - 1⟩)
    | none =>
      let ksl : Ksl κ ν := ⟨some root, links, ksl.n⟩
      some (.error .invalidArgument, some (← ksl.end'), ksl)

/-- `dwnx_ksl_remove_hint` -/
def removeHint (compar : κ → κ → Bool) (ksl : Ksl κ ν) (hint : It) (key : κ) :
    Option (Except Err Unit × Option It × Ksl κ ν) := do
  let ⟨h, root⟩ ← ksl.root
  let addr ← hint.blk
  let blk ← ksl.leafAt addr
  if addr ≠ root.addr ∧ blk.n = kslMinNblk then remove compar ksl key
  else if blk.n ≤ hint.i then none
  else
    let root := modifyLeaf addr (fun blk => blk.removeNode hint.i) h root
    some (.ok (), some (ksl.links.it (blk.removeNode hint.i) hint.i),
      ⟨some ⟨h, root⟩, ksl.links, ksl.n - 1⟩)

/-- `dwnx_ksl_lower_bound_search`, with the function of `dwnx_ksl_search_def` for `compar`. -/
def lowerBound (compar : κ → κ → Bool) (ksl : Ksl κ ν) (key : κ) : Option It :=
  match ksl.root with
  | none => some ⟨none, 0⟩
  | some ⟨h, root⟩ => lowerBoundLoop compar key ksl.links h root

/-- `dwnx_ksl_update_key` -/
def updateKey (compar : κ → κ → Bool) (ksl : Ksl κ ν) (oldKey newKey : κ) :
    Option (Ksl κ ν) := do
  let ⟨h, root⟩ ← ksl.root
  let root ← updateKeyLoop compar oldKey newKey h root
  some { ksl with root := some ⟨h, root⟩ }

end Ksl

end Dwnx
