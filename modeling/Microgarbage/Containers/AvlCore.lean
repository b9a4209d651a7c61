import Microgarbage.Lib.LinkedTree

/-!
# The tree engine

Nodes live in a pool and are linked by index; the free list threads through `left`. The root of a
tree is a variable of the caller, so that many trees can share a pool. A loop of the source takes
its bound as an argument and gives `none` where the bound runs out.
-/

namespace Microgarbage.Containers

open Lib

variable {α : Type*}

abbrev AVL_CORE_NIL : Nat := nilIdx

/-- What a view does not change. -/
structure AvlCore (α : Type*) where
  capacity : Nat
  cmp : α → α → Int

/-- What a view borrows from the owner of the pool. -/
structure AvlOwner (α : Type*) where
  pool : Links α
  freeHead : Nat
  count : Nat

/-! ## Free list -/

/-- One round of the loop that threads the free list. -/
def threadNode (capacity : Nat) (pool : Links α) (i : Nat) : Links α :=
  pool.setLeft i (if i + 1 < capacity then i + 1 else AVL_CORE_NIL)

def buildFreelist (pool : Links α) (capacity : Nat) : Links α × Nat :=
  ((List.range capacity).foldl (threadNode capacity) pool,
    if 0 < capacity then 0 else AVL_CORE_NIL)

def allocNode (o : AvlOwner α) : AvlOwner α × Nat :=
  if o.freeHead = AVL_CORE_NIL then (o, AVL_CORE_NIL)
  else ({ o with freeHead := o.pool.left o.freeHead }, o.freeHead)

def freeNode (o : AvlOwner α) (i : Nat) : AvlOwner α :=
  { o with pool := o.pool.setLeft i o.freeHead, freeHead := i }

/-! ## Search and walk -/

def findLoop (cmp : α → α → Int) (pool : Links α) (key : α) : Nat → Nat → Option Nat
  | 0, _ => none
  | fuel + 1, cur =>
    if cur = AVL_CORE_NIL then some AVL_CORE_NIL
    else if cmp key (pool.payload cur) = 0 then some cur
    else findLoop cmp pool key fuel
      (if cmp key (pool.payload cur) < 0 then pool.left cur else pool.right cur)

variable (c : AvlCore α)

def avlCoreFind (pool : Links α) (root : Nat) (key : α) : Option Nat :=
  findLoop c.cmp pool key (c.capacity + 1) root

/-- The loop of `subtree_min` and `subtree_max`: down one side. -/
def endLoop (side : Nat → Nat) : Nat → Nat → Option Nat
  | 0, _ => none
  | fuel + 1, n => if side n ≠ AVL_CORE_NIL then endLoop side fuel (side n) else some n

def subtreeMin (pool : Links α) (n : Nat) : Option Nat :=
  if n = AVL_CORE_NIL then some AVL_CORE_NIL else endLoop pool.left (c.capacity + 1) n

def subtreeMax (pool : Links α) (n : Nat) : Option Nat :=
  if n = AVL_CORE_NIL then some AVL_CORE_NIL else endLoop pool.right (c.capacity + 1) n

def avlCoreMin (pool : Links α) (root : Nat) : Option Nat :=
  subtreeMin c pool root

def avlCoreMax (pool : Links α) (root : Nat) : Option Nat :=
  subtreeMax c pool root

/-- The loop of `avl_core_next` and `avl_core_prev`: up while coming from one side. -/
def climbLoop (pool : Links α) (side : Nat → Nat) : Nat → Nat → Nat → Option Nat
  | 0, _, _ => none
  | fuel + 1, cur, p =>
    if p ≠ AVL_CORE_NIL ∧ cur = side p then climbLoop pool side fuel p (pool.parent p) else some p

def avlCoreNext (pool : Links α) (cur : Nat) : Option Nat :=
  if cur = AVL_CORE_NIL ∨ c.capacity ≤ cur then some AVL_CORE_NIL
  else if pool.right cur ≠ AVL_CORE_NIL then subtreeMin c pool (pool.right cur)
  else climbLoop pool pool.right (c.capacity + 1) cur (pool.parent cur)

def avlCorePrev (pool : Links α) (cur : Nat) : Option Nat :=
  if cur = AVL_CORE_NIL ∨ c.capacity ≤ cur then some AVL_CORE_NIL
  else if pool.left cur ≠ AVL_CORE_NIL then subtreeMax c pool (pool.left cur)
  else climbLoop pool pool.left (c.capacity + 1) cur (pool.parent cur)

/-! ## Rotations

Each gives the pool, the root of the tree and the new root of the subtree. -/

/-- The parent is written where there is a node. -/
def linkParent (pool : Links α) (i parent : Nat) : Links α :=
  if i ≠ AVL_CORE_NIL then pool.setParent i parent else pool

def replaceChild (pool : Links α) (root parent old neu : Nat) : Links α × Nat :=
  let (pool, root) :=
    if parent = AVL_CORE_NIL then (pool, neu)
    else if pool.left parent = old then (pool.setLeft parent neu, root)
    else (pool.setRight parent neu, root)
  (linkParent pool neu parent, root)

def rotateLeft (pool : Links α) (root x : Nat) : Links α × Nat × Nat :=
  let y := pool.right x
  let p := pool.parent x
  let b := pool.left y
  let pool := pool.setRight x b
  let pool := linkParent pool b x
  let pool := pool.setLeft y x
  let pool := pool.setParent x y
  let (pool, root) := replaceChild pool root p x y
  if pool.bal y = 0 then ((pool.setBal x 1).setBal y (-1), root, y)
  else ((pool.setBal x 0).setBal y 0, root, y)

def rotateRight (pool : Links α) (root x : Nat) : Links α × Nat × Nat :=
  let y := pool.left x
  let p := pool.parent x
  let b := pool.right y
  let pool := pool.setLeft x b
  let pool := linkParent pool b x
  let pool := pool.setRight y x
  let pool := pool.setParent x y
  let (pool, root) := replaceChild pool root p x y
  if pool.bal y = 0 then ((pool.setBal x (-1)).setBal y 1, root, y)
  else ((pool.setBal x 0).setBal y 0, root, y)

def rotateLeftRight (pool : Links α) (root x : Nat) : Links α × Nat × Nat :=
  let z := pool.left x
  let y := pool.right z
  let yb := pool.bal y
  let (pool, root, _) := rotateLeft pool root z
  let (pool, root, newroot) := rotateRight pool root x
  let pool :=
    if 0 < yb then (pool.setBal z (-1)).setBal x 0
    else if yb = 0 then (pool.setBal z 0).setBal x 0
    else (pool.setBal z 0).setBal x 1
  (pool.setBal y 0, root, newroot)

def rotateRightLeft (pool : Links α) (root x : Nat) : Links α × Nat × Nat :=
  let z := pool.right x
  let y := pool.left z
  let yb := pool.bal y
  let (pool, root, _) := rotateRight pool root z
  let (pool, root, newroot) := rotateLeft pool root x
  let pool :=
    if yb < 0 then (pool.setBal z 1).setBal x 0
    else if yb = 0 then (pool.setBal z 0).setBal x 0
    else (pool.setBal z 0).setBal x (-1)
  (pool.setBal y 0, root, newroot)

/-! ## Rebalancing -/

/-- The loop of `avl_retrace_insert`. -/
def retraceInsertLoop : Nat → Links α → Nat → Nat → Nat → Option (Links α × Nat)
  | 0, _, _, _, _ => none
  | fuel + 1, pool, root, child, p =>
    if p = AVL_CORE_NIL then some (pool, root)
    else if child = pool.right p then
      if 0 < pool.bal p then
        let (pool, root, _) :=
          if pool.bal child < 0 then rotateRightLeft pool root p else rotateLeft pool root p
        some (pool, root)
      else if pool.bal p < 0 then some (pool.setBal p 0, root)
      else
        let pool := pool.setBal p 1
        retraceInsertLoop fuel pool root p (pool.parent p)
    else
      if pool.bal p < 0 then
        let (pool, root, _) :=
          if 0 < pool.bal child then rotateLeftRight pool root p else rotateRight pool root p
        some (pool, root)
      else if 0 < pool.bal p then some (pool.setBal p 0, root)
      else
        let pool := pool.setBal p (-1)
        retraceInsertLoop fuel pool root p (pool.parent p)

def avlRetraceInsert (pool : Links α) (root n : Nat) : Option (Links α × Nat) :=
  retraceInsertLoop (c.capacity + 1) pool root n (pool.parent n)

/-- The loop of `avl_retrace_remove`. -/
def avlRetraceRemove : Nat → Links α → Nat → Nat → Bool → Option (Links α × Nat)
  | 0, _, _, _, _ => none
  | fuel + 1, pool, root, p, lostLeft =>
    if p = AVL_CORE_NIL then some (pool, root)
    else
      let nextParent := pool.parent p
      let cameFromLeft := lostLeft
      let lostLeft :=
        if nextParent ≠ AVL_CORE_NIL then decide (pool.left nextParent = p) else lostLeft
      if cameFromLeft then
        if 0 < pool.bal p then
          let sib := pool.right p
          let sb := pool.bal sib
          let (pool, root, _) :=
            if sb < 0 then rotateRightLeft pool root p else rotateLeft pool root p
          if sb = 0 then some (pool, root)
          else avlRetraceRemove fuel pool root nextParent lostLeft
        else if pool.bal p = 0 then some (pool.setBal p 1, root)
        else avlRetraceRemove fuel (pool.setBal p 0) root nextParent lostLeft
      else
        if pool.bal p < 0 then
          let sib := pool.left p
          let sb := pool.bal sib
          let (pool, root, _) :=
            if 0 < sb then rotateLeftRight pool root p else rotateRight pool root p
          if sb = 0 then some (pool, root)
          else avlRetraceRemove fuel pool root nextParent lostLeft
        else if pool.bal p = 0 then some (pool.setBal p (-1), root)
        else avlRetraceRemove fuel (pool.setBal p 0) root nextParent lostLeft

/-! ## Insert and remove -/

/-- The descent of `avl_core_insert`: the parent of the new node and the last comparison, or no
place where the key is there. -/
def insertLoop (cmp : α → α → Int) (pool : Links α) (elem : α) :
    Nat → Nat → Nat → Int → Option (Option (Nat × Int))
  | 0, _, _, _ => none
  | fuel + 1, cur, parent, r =>
    if cur = AVL_CORE_NIL then some (some (parent, r))
    else
      let r := cmp elem (pool.payload cur)
      if r = 0 then some none
      else insertLoop cmp pool elem fuel (if r < 0 then pool.left cur else pool.right cur) cur r

/-- The node taken from the free list is filled and hung under its parent. -/
def linkNode (o : AvlOwner α) (root n parent : Nat) (r : Int) (elem : α) : AvlOwner α × Nat :=
  let pool := o.pool.setPayload n elem
  let pool := pool.setLeft n AVL_CORE_NIL
  let pool := pool.setRight n AVL_CORE_NIL
  let pool := pool.setParent n parent
  let pool := pool.setBal n 0
  let (pool, root) :=
    if parent = AVL_CORE_NIL then (pool, n)
    else if r < 0 then (pool.setLeft parent n, root)
    else (pool.setRight parent n, root)
  ({ o with pool := pool, count := o.count + 1 }, root)

def avlCoreInsert (o : AvlOwner α) (root : Nat) (elem : α) (balance : Bool) :
    Option (AvlOwner α × Nat × Bool) :=
  match insertLoop c.cmp o.pool elem (c.capacity + 1) root AVL_CORE_NIL 0 with
  | none => none
  | some none => some (o, root, false)
  | some (some (parent, r)) =>
    let (o, n) := allocNode o
    if n = AVL_CORE_NIL then some (o, root, false)
    else
      let (o, root) := linkNode o root n parent r elem
      if balance then
        (avlRetraceInsert c o.pool root n).map fun (pool, root) =>
          ({ o with pool := pool }, root, true)
      else some (o, root, true)

/-- The node to unlink: the one found, or its successor, whose payload it then takes. -/
def removeTarget (pool : Links α) (z : Nat) : Option (Links α × Nat) :=
  if pool.left z ≠ AVL_CORE_NIL ∧ pool.right z ≠ AVL_CORE_NIL then
    (subtreeMin c pool (pool.right z)).map fun s => (pool.setPayload z (pool.payload s), s)
  else some (pool, z)

/-- Takes `target`, which has at most one child, out of the tree. -/
def unlinkNode (pool : Links α) (root target : Nat) (balance : Bool) : Option (Links α × Nat) :=
  let child := if pool.left target ≠ AVL_CORE_NIL then pool.left target else pool.right target
  let parent := pool.parent target
  let lostLeft := parent ≠ AVL_CORE_NIL ∧ pool.left parent = target
  let (pool, root) := replaceChild pool root parent target child
  if balance ∧ parent ≠ AVL_CORE_NIL then
    avlRetraceRemove (c.capacity + 1) pool root parent (decide lostLeft)
  else some (pool, root)

/-- No payload where nothing is found, and then nothing is written to `out`. -/
def avlCoreRemove (o : AvlOwner α) (root : Nat) (key : α) (balance : Bool) :
    Option (AvlOwner α × Nat × Option α) :=
  (avlCoreFind c o.pool root key).bind fun z =>
    if z = AVL_CORE_NIL then some (o, root, none)
    else
      let out := o.pool.payload z
      (removeTarget c o.pool z).bind fun (pool, target) =>
        (unlinkNode c pool root target balance).map fun (pool, root) =>
          let o := freeNode { o with pool := pool } target
          ({ o with count := o.count - 1 }, root, some out)

end Microgarbage.Containers
