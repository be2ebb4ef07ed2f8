import Mathlib
import Walrus.Machine.Run
import Walrus.Machine.Slice

/-! # Merkle trees

`walrus_core::merkle`: a binary Merkle tree over a list of leaves, built level by level. A
level with an odd number of nodes is padded with an `Empty` node, whose bytes are the all-zero
digest; the nodes of the next level hash the pairs of the padded one. A proof of a leaf is the
list of siblings from the leaf up; `verify_proof` bounds its length by the tree's depth,
rejects an index with a bit above the path, and recomputes the root, taking at each level the
current node to the left or to the right by the bit of the index.

The hash function is a parameter over an abstract type of digests. Leaf hashes (of
`0x00 ‖ data`) and inner hashes (of `0x01 ‖ left ‖ right`) are assumed injective, never equal
to each other and never the all-zero digest (`MerkleHash.Binding`); under these assumptions a
proof that verifies against the root of a tree binds its index and data to a leaf of the tree
(`verifyProof_binding`). The proof descends from the root: the last sibling of the path sits
at the top, so the recomputed node below it must be one of the root's two children, and so on
down (`climb_binding`); a path shorter than the tree ends in a leaf hash where an inner node
stands, which the assumptions rule out.

The nodes are stored flat, level by level from the leaves up, each odd level followed by its
`Empty` sibling. `get_proof` reads the siblings of a leaf out of this list by offsets it
recomputes with `next_multiple_of(2)`; on a built tree it never reads past the end, and the proof
it returns has `path_length n` siblings and verifies against the root (`getProof_complete`),
with no assumption on the hash.
-/

namespace Walrus.Merkle

/-- The two hashes of a tree over digests of type `D`: `leafHash` hashes `0x00 ‖ data`,
`innerHash` hashes `0x01 ‖ left ‖ right`; `emptyNode` is the all-zero digest `EMPTY_NODE`. -/
structure MerkleHash (D : Type) where
  leafHash : List UInt8 → D
  innerHash : D → D → D
  emptyNode : D

/-- What the binding of a tree rests on: the hashes are injective, a leaf hash is never an inner
hash, and neither is ever the all-zero digest. -/
structure MerkleHash.Binding {D : Type} (H : MerkleHash D) : Prop where
  leaf_injective : Function.Injective H.leafHash
  inner_injective : ∀ a b a' b', H.innerHash a b = H.innerHash a' b' → a = a' ∧ b = b'
  leaf_ne_inner : ∀ x a b, H.leafHash x ≠ H.innerHash a b
  leaf_ne_empty : ∀ x, H.leafHash x ≠ H.emptyNode
  inner_ne_empty : ∀ a b, H.innerHash a b ≠ H.emptyNode

/-- `Node`: the root of an empty subtree, or a digest. -/
inductive Node (D : Type) where
  | empty
  | digest (val : D)
deriving DecidableEq, Repr

variable {D : Type} (H : MerkleHash D)

/-- `Node::bytes`: an empty subtree reads as the all-zero digest. -/
def Node.bytes : Node D → D
  | .empty => H.emptyNode
  | .digest val => val

/-- `leaf_hash`. -/
def leafHash (input : List UInt8) : Node D :=
  .digest (H.leafHash input)

/-- `inner_hash`: over the bytes of both children. -/
def innerHash (left right : Node D) : Node D :=
  .digest (H.innerHash (left.bytes H) (right.bytes H))

/-- `MerkleProofError`. -/
inductive MerkleProofError where
  | pathLengthTooLarge
  | leafIndexOutOfBounds (index : Nat)
  | rootMismatch
deriving DecidableEq, Repr

/-! ## Proofs -/

/-- `MerkleProof`: the siblings on the path from a leaf to the root. -/
structure MerkleProof (D : Type) where
  path : List (Node D)

/-- One round of the loop of `compute_root`: the parent of the current node, which is its left
child at an even index and its right child at an odd one, and the index one level up. -/
def climbStep (acc : Node D × Nat) (sibling : Node D) : Node D × Nat :=
  (if acc.2 % 2 = 0 then innerHash H acc.1 sibling else innerHash H sibling acc.1, acc.2 / 2)

namespace MerkleProof

/-- `compute_root`: an index with a bit at or above the path's length is out of bounds. -/
def computeRoot (self : MerkleProof D) (leaf : List UInt8) (leafIndex : Nat) :
    Except MerkleProofError (Node D) :=
  if leafIndex >>> self.path.length ≠ 0 then .error (.leafIndexOutOfBounds leafIndex)
  else .ok (self.path.foldl (climbStep H) (leafHash H leaf, leafIndex)).1

/-- `check_path_length`. -/
def checkPathLength (self : MerkleProof D) (maxPathLength : Nat) :
    Except MerkleProofError Unit :=
  if self.path.length > maxPathLength then .error .pathLengthTooLarge else .ok ()

end MerkleProof

/-- `path_length`: the depth of a tree with `n_leaves` leaves. -/
def pathLength (nLeaves : Nat) : Nat :=
  if nLeaves ≤ 1 then 0 else Nat.log2 (nLeaves - 1) + 1

/-- `MerkleAuth::verify_proof`. -/
def MerkleProof.verifyProof [DecidableEq D] (self : MerkleProof D) (root : Node D)
    (leafCount : Nat) (leaf : List UInt8) (leafIndex : Nat) : Except MerkleProofError Unit := do
  self.checkPathLength (pathLength leafCount)
  let computed ← self.computeRoot H leaf leafIndex
  unless computed = root do throw .rootMismatch

/-! ## Trees -/

/-- The nodes of the next level: the hashes of the pairs of a padded level. -/
def parents : List (Node D) → List (Node D)
  | left :: right :: rest => innerHash H left right :: parents rest
  | _ => []

/-- An odd level gets an empty sibling for its last node. -/
def padLevel (level : List (Node D)) : List (Node D) :=
  if level.length % 2 = 1 then level ++ [.empty] else level

theorem length_parents : ∀ l : List (Node D), (parents H l).length = l.length / 2
  | _ :: _ :: rest => by
    simp only [parents, List.length_cons, length_parents rest]
    omega
  | [] => by simp [parents]
  | [_] => by simp [parents]

theorem length_padLevel (level : List (Node D)) :
    (padLevel level).length = level.length + level.length % 2 := by
  unfold padLevel
  split <;> simp <;> omega

/-- One pass of the loop: the next level has half the padded nodes, rounded up. -/
theorem length_parents_padLevel (level : List (Node D)) :
    (parents H (padLevel level)).length = (level.length + 1) / 2 := by
  rw [length_parents, length_padLevel]
  omega

/-- The `while` loop of `build_from_leaf_hashes`: the nodes of this level, padded, then those
of every level above it. -/
def buildLevels (level : List (Node D)) : List (Node D) :=
  if level.length > 1 then padLevel level ++ buildLevels (parents H (padLevel level))
  else level
termination_by level.length
decreasing_by
  rw [length_parents_padLevel]
  omega

/-- `MerkleTree`: the nodes level by level from the leaves up, and the number of leaves. -/
structure MerkleTree (D : Type) where
  nodes : List (Node D)
  nLeaves : Nat

namespace MerkleTree

/-- `build_from_leaf_hashes`. -/
def buildFromLeafHashes (leafHashes : List (Node D)) : MerkleTree D :=
  ⟨buildLevels H leafHashes, leafHashes.length⟩

/-- `build`. -/
def build (leaves : List (List UInt8)) : MerkleTree D :=
  buildFromLeafHashes H (leaves.map (leafHash H))

/-- `root`: the last node, or `Empty` for a tree without leaves. -/
def root (self : MerkleTree D) : Node D :=
  self.nodes.getLast?.getD .empty

/-- The `while` loop of `get_proof`: the siblings from the level of `nLevel` nodes that starts
at `levelBaseIndex` up to the root. `self.nodes[sibling_index]` panics past the end of the
nodes. -/
def proofPath (nodes : List (Node D)) (levelIndex nLevel levelBaseIndex : Nat) :
    Except String (List (Node D)) :=
  if nLevel > 1 then do
    -- `next_multiple_of(2)`: the sizes of a tree stay far below the top of `usize`
    let nLevel := nLevel + nLevel % 2
    let siblingIndex :=
      if levelIndex % 2 = 0 then levelBaseIndex + levelIndex + 1
      else levelBaseIndex + levelIndex - 1
    let sibling ← Machine.Slice.get nodes siblingIndex
    let path ← proofPath nodes (levelIndex / 2) (nLevel / 2) (levelBaseIndex + nLevel)
    pure (sibling :: path)
  else pure []
termination_by nLevel
decreasing_by omega

/-- `get_proof`. -/
def getProof (self : MerkleTree D) (leafIndex : Nat) :
    Except String (Except MerkleProofError (MerkleProof D)) :=
  if leafIndex ≥ self.nLeaves then pure (.error (.leafIndexOutOfBounds leafIndex))
  else do
    let path ← proofPath self.nodes leafIndex self.nLeaves 0
    pure (.ok ⟨path⟩)

end MerkleTree

/-- The `while` loop of `n_nodes`: the nodes of this level, padded, and of every level above. -/
def nNodesLoop (lvlNodes totNodes : Nat) : Nat :=
  if lvlNodes > 1 then
    let lvlNodes := lvlNodes + lvlNodes % 2
    nNodesLoop (lvlNodes / 2) (totNodes + lvlNodes)
  else totNodes + lvlNodes
termination_by lvlNodes
decreasing_by omega

/-- `n_nodes`: the capacity `build_from_leaf_hashes` reserves for the nodes of a tree. -/
def nNodes (nLeaves : Nat) : Nat :=
  nNodesLoop nLeaves 0

/-! ## The levels of a tree -/

/-- One pass of the loop of `build_from_leaf_hashes`: from a level to the one above it. -/
def nextLevel (level : List (Node D)) : List (Node D) :=
  parents H (padLevel level)

/-- A node of the next level hashes two neighbours of the padded level. -/
theorem getElem?_parents : ∀ (l : List (Node D)) (j : Nat) {y : Node D},
    (parents H l)[j]? = some y →
      ∃ a b, l[2 * j]? = some a ∧ l[2 * j + 1]? = some b ∧ y = innerHash H a b
  | left :: right :: rest, 0, y, hy => by
    simp only [parents, List.getElem?_cons_zero, Option.some.injEq] at hy
    exact ⟨left, right, rfl, rfl, hy.symm⟩
  | _ :: _ :: rest, j + 1, y, hy => by
    simp only [parents, List.getElem?_cons_succ] at hy
    obtain ⟨a, b, ha, hb, rfl⟩ := getElem?_parents rest j hy
    refine ⟨a, b, ?_, ?_, rfl⟩
    · rw [show 2 * (j + 1) = 2 * j + 2 by omega]
      simpa using ha
    · rw [show 2 * (j + 1) + 1 = 2 * j + 1 + 2 by omega]
      simpa using hb
  | [], _, _, hy => by simp [parents] at hy
  | [_], _, _, hy => by simp [parents] at hy

theorem mem_parents : ∀ {l : List (Node D)} {y : Node D}, y ∈ parents H l →
    ∃ a b, y = innerHash H a b
  | _ :: _ :: rest, y, hy => by
    rcases List.mem_cons.mp hy with rfl | hy
    · exact ⟨_, _, rfl⟩
    · exact mem_parents hy
  | [], _, hy => by simp [parents] at hy
  | [_], _, hy => by simp [parents] at hy

/-- A node of a padded level is a node of the level, or the empty sibling after its end. -/
theorem getElem?_padLevel {level : List (Node D)} {k : Nat} {a : Node D}
    (h : (padLevel level)[k]? = some a) :
    level[k]? = some a ∨ (k = level.length ∧ a = .empty) := by
  unfold padLevel at h
  split at h
  · rcases Nat.lt_or_ge k level.length with hk | hk
    · left
      rwa [List.getElem?_append_left hk] at h
    · right
      rw [List.getElem?_append_right hk] at h
      cases hd : k - level.length with
      | zero =>
        rw [hd, List.getElem?_cons_zero, Option.some.injEq] at h
        exact ⟨by omega, h.symm⟩
      | succ n =>
        rw [hd] at h
        simp at h
  · exact Or.inl h

/-- `path_length` one level up: a tree of `m ≥ 2` leaves is one level deeper than the tree
over the next level. -/
theorem pathLength_succ {m : Nat} (hm : 2 ≤ m) : pathLength m = pathLength ((m + 1) / 2) + 1 := by
  unfold pathLength
  rcases Nat.lt_or_ge m 3 with h3 | h3
  · have hm2 : m = 2 := by omega
    subst hm2
    decide
  · rw [if_neg (by omega), if_neg (by omega), Nat.log2_def (m - 1), if_pos (by omega)]
    rw [show (m + 1) / 2 - 1 = (m - 1) / 2 by omega]

theorem buildLevels_of_le_one {level : List (Node D)} (h : level.length ≤ 1) :
    buildLevels H level = level := by
  rw [buildLevels, if_neg (by omega)]

theorem buildLevels_of_gt_one {level : List (Node D)} (h : 1 < level.length) :
    buildLevels H level = padLevel level ++ buildLevels H (nextLevel H level) := by
  rw [buildLevels, if_pos h]
  rfl

theorem buildLevels_ne_nil {level : List (Node D)} (h : level ≠ []) : buildLevels H level ≠ [] := by
  rcases Nat.lt_or_ge 1 level.length with h1 | h1
  · rw [buildLevels_of_gt_one H h1]
    have hpad : padLevel level ≠ [] := by
      unfold padLevel
      split <;> simp [h]
    simp [hpad]
  · rwa [buildLevels_of_le_one H h1]

/-- A level of two nodes or more has a level above it. -/
theorem nextLevel_ne_nil {level : List (Node D)} (h : 1 < level.length) :
    nextLevel H level ≠ [] := by
  have hlen : (nextLevel H level).length = (level.length + 1) / 2 := length_parents_padLevel H level
  exact List.ne_nil_of_length_pos (by omega)

/-- The tree over a level of two nodes or more has the root of the tree over the next level. -/
theorem root_nextLevel {level : List (Node D)} (h : 1 < level.length) :
    (MerkleTree.buildFromLeafHashes H level).root =
      (MerkleTree.buildFromLeafHashes H (nextLevel H level)).root := by
  obtain ⟨top, htop⟩ := List.getLast?_isSome.mpr (buildLevels_ne_nil H (nextLevel_ne_nil H h)) |>
    Option.isSome_iff_exists.mp
  simp only [MerkleTree.buildFromLeafHashes, MerkleTree.root, buildLevels_of_gt_one H h,
    List.getLast?_append, htop, Option.some_or]

/-- The tree over a single node has that node as its root. -/
theorem root_singleton (x : Node D) : (MerkleTree.buildFromLeafHashes H [x]).root = x := by
  simp [MerkleTree.buildFromLeafHashes, MerkleTree.root, @buildLevels_of_le_one _ H [x] (by simp)]

/-- The level `path_length n` above `n ≥ 1` leaf hashes is the root alone. -/
theorem iterate_pathLength : ∀ (l : List (Node D)), l ≠ [] →
    (nextLevel H)^[pathLength l.length] l = [(MerkleTree.buildFromLeafHashes H l).root]
  | l, hl => by
    rcases Nat.lt_or_ge l.length 2 with h2 | h2
    · -- a single node: no pass of the loop
      obtain ⟨x, rfl⟩ : ∃ x, l = [x] := by
        match l, hl, h2 with
        | [x], _, _ => exact ⟨x, rfl⟩
      rw [root_singleton]
      rfl
    · -- one pass, then the tree over the next level
      have hlen : (nextLevel H l).length = (l.length + 1) / 2 := length_parents_padLevel H l
      rw [pathLength_succ h2, Function.iterate_succ_apply, ← hlen, root_nextLevel H h2]
      exact iterate_pathLength (nextLevel H l) (nextLevel_ne_nil H h2)
termination_by l => l.length
decreasing_by
  rw [hlen]
  omega

/-! ## Recomputing the root -/

@[simp] theorem bytes_innerHash (left right : Node D) :
    (innerHash H left right).bytes H = H.innerHash (left.bytes H) (right.bytes H) := rfl

@[simp] theorem bytes_leafHash (input : List UInt8) :
    (leafHash H input).bytes H = H.leafHash input := rfl

theorem checkPathLength_eq_ok {p : MerkleProof D} {m : Nat} {u : Unit} :
    p.checkPathLength m = .ok u ↔ p.path.length ≤ m := by
  unfold MerkleProof.checkPathLength
  split <;> simp <;> omega

theorem computeRoot_eq_ok {p : MerkleProof D} {leaf : List UInt8} {i : Nat} {r : Node D} :
    p.computeRoot H leaf i = .ok r ↔
      i < 2 ^ p.path.length ∧ r = (p.path.foldl (climbStep H) (leafHash H leaf, i)).1 := by
  unfold MerkleProof.computeRoot
  have hbits : i >>> p.path.length = 0 ↔ i < 2 ^ p.path.length := by
    rw [Nat.shiftRight_eq_div_pow, Nat.div_eq_zero_iff_lt (Nat.two_pow_pos _)]
  split
  · rename_i hi
    simp only [reduceCtorEq, false_iff, not_and]
    intro hlt
    exact absurd (hbits.mpr hlt) hi
  · rename_i hi
    simp only [Except.ok.injEq]
    constructor
    · intro hr
      exact ⟨hbits.mp (not_not.mp hi), hr.symm⟩
    · intro hr
      exact hr.2.symm

/-- `verify_proof` accepts exactly a proof within the depth of the tree, with the index in the
bits of the path, whose siblings climb the leaf to the root. -/
theorem verifyProof_eq_ok [DecidableEq D] {p : MerkleProof D} {root : Node D} {n : Nat}
    {d : List UInt8} {i : Nat} :
    p.verifyProof H root n d i = .ok () ↔ p.path.length ≤ pathLength n ∧
      i < 2 ^ p.path.length ∧ (p.path.foldl (climbStep H) (leafHash H d, i)).1 = root := by
  unfold MerkleProof.verifyProof
  constructor
  · intro h
    obtain ⟨u, hlen, h₁⟩ := Machine.bind_eq_ok.mp h
    obtain ⟨computed, hcomp, h₂⟩ := Machine.bind_eq_ok.mp h₁
    obtain ⟨hi, rfl⟩ := (computeRoot_eq_ok H).mp hcomp
    refine ⟨checkPathLength_eq_ok.mp hlen, hi, ?_⟩
    by_contra hne
    simp [hne, throw, throwThe, MonadExceptOf.throw] at h₂
  · rintro ⟨hlen, hi, hroot⟩
    rw [(checkPathLength_eq_ok (u := ())).mpr hlen, Machine.ok_bind,
      (computeRoot_eq_ok H).mpr ⟨hi, rfl⟩, Machine.ok_bind, if_pos hroot]
    rfl

/-- After the siblings `p`, the index has lost its last `p.length` bits. -/
theorem climb_snd : ∀ (p : List (Node D)) (x : Node D) (i : Nat),
    (p.foldl (climbStep H) (x, i)).2 = i / 2 ^ p.length
  | [], x, i => by simp
  | s :: p, x, i => by
    rw [List.foldl_cons, climb_snd p]
    simp only [climbStep, List.length_cons]
    rw [Nat.pow_succ, Nat.div_div_eq_div_mul, Nat.mul_comm 2]

/-- The recomputed node reads only the bits of the index below the path's length. -/
theorem climb_fst_mod : ∀ (p : List (Node D)) (x : Node D) (i : Nat),
    (p.foldl (climbStep H) (x, i)).1 = (p.foldl (climbStep H) (x, i % 2 ^ p.length)).1
  | [], x, i => by simp
  | s :: p, x, i => by
    have hbit : i % 2 ^ (p.length + 1) % 2 = i % 2 :=
      Nat.mod_mod_of_dvd i ⟨2 ^ p.length, by rw [Nat.pow_succ, Nat.mul_comm]⟩
    have hup : i % 2 ^ (p.length + 1) / 2 = i / 2 % 2 ^ p.length := by
      rw [Nat.pow_succ, Nat.mul_comm, Nat.mod_mul_right_div_self]
    rw [List.foldl_cons, List.foldl_cons, List.length_cons,
      climb_fst_mod p _ (climbStep H (x, i) s).2]
    simp only [climbStep, hbit, hup]

/-- The recomputed node of a proof is a hash, never the digest of an empty subtree. -/
theorem climb_ne_empty (hH : H.Binding) : ∀ (p : List (Node D)) (x : Node D) (i : Nat),
    x.bytes H ≠ H.emptyNode → (p.foldl (climbStep H) (x, i)).1.bytes H ≠ H.emptyNode
  | [], x, i, hx => hx
  | s :: p, x, i, hx => by
    rw [List.foldl_cons]
    apply climb_ne_empty hH p
    dsimp only [climbStep]
    split <;> exact hH.inner_ne_empty _ _

/-- The nodes of a level above the leaves are inner hashes. -/
theorem mem_iterate_succ {l : List (Node D)} {h : Nat} {y : Node D}
    (hy : y ∈ (nextLevel H)^[h + 1] l) : ∃ a b, y = innerHash H a b := by
  rw [Function.iterate_succ_apply'] at hy
  exact mem_parents H hy

/-- The descent from a node of the tree. If the siblings `p` take `x` at index `i` to the node
at `j` of level `h` above the leaves, then the tree is at least `p.length` levels high there,
and `x` is the node at `i + j * 2 ^ p.length` of the level `p.length` below. -/
theorem climb_binding (hH : H.Binding) {leaves : List (List UInt8)} :
    ∀ (p : List (Node D)) {h j i : Nat} {x y : Node D}, i < 2 ^ p.length →
      x.bytes H ≠ H.emptyNode →
      ((nextLevel H)^[h] (leaves.map (leafHash H)))[j]? = some y →
      (p.foldl (climbStep H) (x, i)).1.bytes H = y.bytes H →
      p.length ≤ h ∧ (((nextLevel H)^[h - p.length] (leaves.map (leafHash H)))[i + j * 2 ^
        p.length]?).map (Node.bytes H) = some (x.bytes H) := by
  intro p
  -- induction from the top of the path: its last sibling is the root's other child
  induction p using List.reverseRecOn with
  | nil =>
    intro h j i x y hi hx hy hc
    have hi0 : i = 0 := by simpa using hi
    subst hi0
    refine ⟨Nat.zero_le h, ?_⟩
    simp only [List.foldl_nil] at hc
    simp [hy, hc]
  | append_singleton p s ih =>
    intro h j i x y hi hx hy hc
    rw [List.foldl_append, List.foldl_cons, List.foldl_nil] at hc
    have hsnd : (p.foldl (climbStep H) (x, i)).2 = i / 2 ^ p.length := climb_snd H p x i
    have hne := climb_ne_empty H hH p x i hx
    have hbit : i / 2 ^ p.length < 2 := by
      rw [List.length_append, List.length_singleton, Nat.pow_succ] at hi
      exact Nat.div_lt_of_lt_mul hi
    cases h with
    | zero =>
      -- the top node would be a leaf hash
      exfalso
      obtain ⟨d, -, rfl⟩ := List.mem_map.mp (List.mem_of_getElem? hy)
      dsimp only [climbStep] at hc
      split at hc <;> exact hH.leaf_ne_inner _ _ _ hc.symm
    | succ h =>
      rw [Function.iterate_succ_apply'] at hy
      obtain ⟨a, b, ha, hb, rfl⟩ := getElem?_parents H _ j hy
      -- the recomputed node below the top is the child on the side of the index bit
      obtain ⟨z, hz, hcz⟩ : ∃ z, (padLevel ((nextLevel H)^[h] (leaves.map (leafHash H))))[2 * j +
          i / 2 ^ p.length]? = some z ∧
          (p.foldl (climbStep H) (x, i)).1.bytes H = z.bytes H := by
        dsimp only [climbStep] at hc
        rw [hsnd] at hc
        split at hc
        · rename_i heven
          have h0 : i / 2 ^ p.length = 0 := by omega
          rw [h0, Nat.add_zero]
          exact ⟨a, ha, (hH.inner_injective _ _ _ _ (by simpa using hc)).1⟩
        · rename_i hodd
          have h1 : i / 2 ^ p.length = 1 := by omega
          rw [h1]
          exact ⟨b, hb, (hH.inner_injective _ _ _ _ (by simpa using hc)).2⟩
      have hz' : ((nextLevel H)^[h] (leaves.map (leafHash H)))[2 * j + i / 2 ^ p.length]? =
          some z := by
        rcases getElem?_padLevel hz with hz' | ⟨-, rfl⟩
        · exact hz'
        · exact absurd hcz hne
      have hmod : (p.foldl (climbStep H) (x, i % 2 ^ p.length)).1.bytes H = z.bytes H := by
        rw [← climb_fst_mod]
        exact hcz
      obtain ⟨hlen, hnode⟩ := ih (Nat.mod_lt _ (Nat.two_pow_pos _)) hx hz' hmod
      have hidx : i % 2 ^ p.length + (2 * j + i / 2 ^ p.length) * 2 ^ p.length =
          i + j * 2 ^ (p ++ [s]).length := by
        have hsplit := Nat.mod_add_div i (2 ^ p.length)
        rw [List.length_append, List.length_singleton, Nat.pow_succ]
        calc i % 2 ^ p.length + (2 * j + i / 2 ^ p.length) * 2 ^ p.length
            = (i % 2 ^ p.length + 2 ^ p.length * (i / 2 ^ p.length)) +
                j * (2 ^ p.length * 2) := by
              rw [Nat.add_mul, Nat.mul_comm (i / 2 ^ p.length), Nat.mul_comm 2 j,
                Nat.mul_assoc j 2, Nat.mul_comm 2 (2 ^ p.length)]
              omega
          _ = i + j * (2 ^ p.length * 2) := by rw [hsplit]
      refine ⟨by simp only [List.length_append, List.length_singleton]; omega, ?_⟩
      rw [← hidx, show h + 1 - (p ++ [s]).length = h - p.length by simp]
      exact hnode

/-- Digests of an ideal hash, which keeps its whole input: the hash under which the binding
assumptions hold exactly. -/
inductive SymbolicDigest where
  | zero
  | leaf (data : List UInt8)
  | inner (left right : SymbolicDigest)
deriving DecidableEq, Repr

/-- The ideal hash over `SymbolicDigest`. -/
def symbolicHash : MerkleHash SymbolicDigest :=
  ⟨.leaf, .inner, .zero⟩

theorem symbolicHash_binding : symbolicHash.Binding where
  leaf_injective := fun _ _ h => SymbolicDigest.leaf.inj h
  inner_injective := fun _ _ _ _ h => SymbolicDigest.inner.inj h
  leaf_ne_inner := fun _ _ _ h => SymbolicDigest.noConfusion h
  leaf_ne_empty := fun _ h => SymbolicDigest.noConfusion h
  inner_ne_empty := fun _ _ h => SymbolicDigest.noConfusion h

/-- A Merkle proof binds: if a proof verifies data `d` at index `i` against the root of the
tree over `leaves`, then `i` is an index of `leaves` and `d` is the leaf there. -/
theorem verifyProof_binding [DecidableEq D] (hH : H.Binding) (leaves : List (List UInt8))
    (p : MerkleProof D) (d : List UInt8) (i : Nat)
    (h : p.verifyProof H (MerkleTree.build H leaves).root leaves.length d i = .ok ()) :
    leaves[i]? = some d := by
  obtain ⟨-, hi, hroot⟩ := (verifyProof_eq_ok H).mp h
  have hne := climb_ne_empty H hH p.path (leafHash H d) i (hH.leaf_ne_empty d)
  rcases List.eq_nil_or_concat leaves with rfl | ⟨init, last, hleaves⟩
  · -- the tree without leaves has the empty root, which no proof recomputes
    exfalso
    apply hne
    rw [hroot]
    simp [MerkleTree.build, MerkleTree.buildFromLeafHashes, MerkleTree.root,
      @buildLevels_of_le_one _ H [] (by simp), Node.bytes]
  · have hnil : leaves.map (leafHash H) ≠ [] := by simp [hleaves]
    have htop := iterate_pathLength H _ hnil
    rw [List.length_map] at htop
    have hy : ((nextLevel H)^[pathLength leaves.length] (leaves.map (leafHash H)))[0]? =
        some (MerkleTree.build H leaves).root := by
      rw [htop]
      rfl
    obtain ⟨hdepth, hleaf⟩ := climb_binding H hH p.path (x := leafHash H d) hi
      (hH.leaf_ne_empty d) hy (by rw [hroot])
    rw [Nat.zero_mul, Nat.add_zero] at hleaf
    -- the path reaches the leaves: a node above them is an inner hash
    cases hk : pathLength leaves.length - p.path.length with
    | zero =>
      rw [hk, Function.iterate_zero, id, List.getElem?_map] at hleaf
      cases hl : leaves[i]? with
      | none => simp [hl] at hleaf
      | some l =>
        simp only [hl, Option.map_some, bytes_leafHash, Option.some.injEq] at hleaf
        rw [hH.leaf_injective hleaf]
    | succ k =>
      exfalso
      rw [hk] at hleaf
      obtain ⟨y, hy', hyb⟩ := Option.map_eq_some_iff.mp hleaf
      obtain ⟨a, b, rfl⟩ := mem_iterate_succ H (List.mem_of_getElem? hy')
      exact hH.leaf_ne_inner d _ _ (by simpa using hyb.symm)

/-- The proof of the second of two leaves, under the ideal hash. -/
theorem verifyProof_binding_second_leaf :
    symbolicHash.Binding ∧
      (MerkleProof.mk [leafHash symbolicHash [1]]).verifyProof symbolicHash
        (MerkleTree.build symbolicHash [[1], [2]]).root 2 [2] 1 = .ok () ∧
      [[(1 : UInt8)], [2]][1]? = some [2] := by
  have hverify : (MerkleProof.mk [leafHash symbolicHash [1]]).verifyProof symbolicHash
      (MerkleTree.build symbolicHash [[1], [2]]).root 2 [2] 1 = .ok () := by
    simp [MerkleProof.verifyProof, MerkleProof.checkPathLength, MerkleProof.computeRoot,
      pathLength, MerkleTree.build, MerkleTree.buildFromLeafHashes, MerkleTree.root,
      buildLevels_of_gt_one, buildLevels_of_le_one, nextLevel, padLevel, parents, climbStep,
      bind, Except.bind, pure, Except.pure]
  exact ⟨symbolicHash_binding, hverify,
    verifyProof_binding symbolicHash symbolicHash_binding _ _ _ _ hverify⟩

/-! ## Completeness of proofs

`get_proof` walks the flat list of nodes level by level: at the level of `n` nodes starting at
`base` it reads the sibling of the current index in the padded level, then moves to the parent
index on the next level, which starts `n + n % 2` nodes further. On the nodes that
`build_from_leaf_hashes` pushes this never runs past the end, and the siblings it reads climb the
leaf back to the root (`proofPath_buildLevels`), one level per sibling (`climbStep_sibling`). -/

/-- The nodes the loop of `build_from_leaf_hashes` pushes are the ones `n_nodes` counts. -/
theorem length_buildLevels_add (level : List (Node D)) (tot : Nat) :
    (buildLevels H level).length + tot = nNodesLoop level.length tot := by
  rcases Nat.lt_or_ge 1 level.length with h1 | h1
  · -- one padded level, then the levels above it
    have hlen : (nextLevel H level).length = (level.length + level.length % 2) / 2 := by
      rw [nextLevel, length_parents, length_padLevel]
    rw [buildLevels_of_gt_one H h1, nNodesLoop, if_pos h1]
    dsimp only
    rw [List.length_append, length_padLevel, ← hlen, ← length_buildLevels_add (nextLevel H level)]
    omega
  · rw [buildLevels_of_le_one H h1, nNodesLoop, if_neg (by omega)]
    omega
termination_by level.length
decreasing_by omega

theorem length_nodes_buildFromLeafHashes (leafHashes : List (Node D)) :
    (MerkleTree.buildFromLeafHashes H leafHashes).nodes.length = nNodes leafHashes.length := by
  rw [nNodes, ← length_buildLevels_add H leafHashes 0]
  rfl

/-- Every index below `n` fits in the `path_length n` bits a proof of a tree of `n` leaves has. -/
theorem lt_two_pow_pathLength {n i : Nat} (hi : i < n) : i < 2 ^ pathLength n := by
  unfold pathLength
  split
  · -- at most one leaf: the index is 0
    rw [Nat.pow_zero]
    omega
  · have hlog : n - 1 < 2 ^ (Nat.log2 (n - 1) + 1) := Nat.lt_log2_self
    omega

/-- A node of a level keeps its index in the padded level. -/
theorem getElem?_padLevel_of_getElem? {level : List (Node D)} {i : Nat} {x : Node D}
    (hx : level[i]? = some x) : (padLevel level)[i]? = some x := by
  unfold padLevel
  split
  · rw [List.getElem?_append_left (List.getElem?_eq_some_iff.mp hx).1]
    exact hx
  · exact hx

/-- Two neighbours of a level, the first at an even index, have their hash on the next level. -/
theorem getElem?_parents_of : ∀ (l : List (Node D)) (j : Nat) {a b : Node D},
    l[2 * j]? = some a → l[2 * j + 1]? = some b → (parents H l)[j]? = some (innerHash H a b)
  | left :: right :: rest, 0, a, b, ha, hb => by
    simp only [Nat.mul_zero, List.getElem?_cons_zero, Option.some.injEq, Nat.zero_add,
      List.getElem?_cons_succ] at ha hb
    rw [parents, ← ha, ← hb]
    rfl
  | _ :: _ :: rest, j + 1, a, b, ha, hb => by
    rw [show 2 * (j + 1) = 2 * j + 2 by omega] at ha
    rw [show 2 * (j + 1) + 1 = 2 * j + 1 + 2 by omega] at hb
    simp only [List.getElem?_cons_succ] at ha hb
    rw [parents, List.getElem?_cons_succ]
    exact getElem?_parents_of rest j ha hb
  | [], _, _, _, ha, _ => by simp at ha
  | [_], _, _, _, _, hb => by simp at hb

/-- One sibling read by `get_proof` takes a node of a level of two nodes or more to its parent:
the sibling is the neighbour in the padded level, on the other side of the index bit. -/
theorem climbStep_sibling {level : List (Node D)} {i : Nat} {x : Node D}
    (hx : level[i]? = some x) :
    ∃ s y, (padLevel level)[if i % 2 = 0 then i + 1 else i - 1]? = some s ∧
      (nextLevel H level)[i / 2]? = some y ∧ climbStep H (x, i) s = (y, i / 2) := by
  have hi : i < level.length := (List.getElem?_eq_some_iff.mp hx).1
  have hpad := getElem?_padLevel_of_getElem? hx
  have hlen := length_padLevel level
  by_cases hbit : i % 2 = 0
  · -- a left child: the sibling follows it, and the padded level is long enough for it
    obtain ⟨s, hs⟩ : ∃ s, (padLevel level)[i + 1]? = some s :=
      ⟨_, List.getElem?_eq_getElem (by omega)⟩
    have hy : (nextLevel H level)[i / 2]? = some (innerHash H x s) := by
      apply getElem?_parents_of
      · rwa [show 2 * (i / 2) = i by omega]
      · rwa [show 2 * (i / 2) + 1 = i + 1 by omega]
    refine ⟨s, innerHash H x s, ?_, hy, ?_⟩
    · rwa [if_pos hbit]
    · simp [climbStep, hbit]
  · -- a right child: the sibling comes before it
    obtain ⟨s, hs⟩ : ∃ s, (padLevel level)[i - 1]? = some s :=
      ⟨_, List.getElem?_eq_getElem (by omega)⟩
    have hy : (nextLevel H level)[i / 2]? = some (innerHash H s x) := by
      apply getElem?_parents_of
      · rwa [show 2 * (i / 2) = i - 1 by omega]
      · rwa [show 2 * (i / 2) + 1 = i by omega]
    refine ⟨s, innerHash H s x, ?_, hy, ?_⟩
    · rwa [if_neg hbit]
    · simp [climbStep, hbit]

/-- The loop of `get_proof` from a node of a level of the tree, with the levels below it before
in the nodes: it never panics, reads one sibling per level up to the root, and the siblings climb
the node back to the root. -/
theorem proofPath_buildLevels (pre level : List (Node D)) (i : Nat) (x : Node D)
    (hx : level[i]? = some x) :
    ∃ path, MerkleTree.proofPath (pre ++ buildLevels H level) i level.length pre.length =
        .ok path ∧ path.length = pathLength level.length ∧
      (path.foldl (climbStep H) (x, i)).1 = (MerkleTree.buildFromLeafHashes H level).root := by
  rcases Nat.lt_or_ge 1 level.length with h1 | h1
  · -- a level below the root: its sibling, then the path from the parent on the next level
    obtain ⟨s, y, hs, hy, hstep⟩ := climbStep_sibling H hx
    have hlen : (nextLevel H level).length = (level.length + level.length % 2) / 2 := by
      rw [nextLevel, length_parents, length_padLevel]
    obtain ⟨path, hpath, hplen, hroot⟩ :=
      proofPath_buildLevels (pre ++ padLevel level) (nextLevel H level) (i / 2) y hy
    have hnodes : pre ++ buildLevels H level =
        (pre ++ padLevel level) ++ buildLevels H (nextLevel H level) := by
      rw [buildLevels_of_gt_one H h1, List.append_assoc]
    have hsib : (pre ++ buildLevels H level)[if i % 2 = 0 then pre.length + i + 1
        else pre.length + i - 1]? = some s := by
      have hk := (List.getElem?_eq_some_iff.mp hs).1
      rw [show (if i % 2 = 0 then pre.length + i + 1 else pre.length + i - 1) =
          pre.length + (if i % 2 = 0 then i + 1 else i - 1) by split <;> omega,
        hnodes, List.append_assoc, List.getElem?_append_right (by omega), Nat.add_sub_cancel_left,
        List.getElem?_append_left hk]
      exact hs
    refine ⟨s :: path, ?_, ?_, ?_⟩
    · rw [MerkleTree.proofPath, if_pos h1]
      dsimp only
      rw [Machine.Slice.get_eq_ok_of_getElem? hsib, Machine.ok_bind, ← hlen,
        show pre.length + (level.length + level.length % 2) = (pre ++ padLevel level).length by
          rw [List.length_append, length_padLevel],
        hnodes, hpath]
      rfl
    · have hnext : (nextLevel H level).length = (level.length + 1) / 2 :=
        length_parents_padLevel H level
      rw [List.length_cons, hplen, pathLength_succ h1, hnext]
    · rw [List.foldl_cons, hstep, hroot, root_nextLevel H h1]
  · -- the root alone: the loop does not run
    have hi : i < level.length := (List.getElem?_eq_some_iff.mp hx).1
    obtain ⟨r, rfl⟩ : ∃ r, level = [r] := List.length_eq_one_iff.mp (by omega)
    have hi0 : i = 0 := by
      rw [List.length_singleton] at hi
      omega
    subst hi0
    have hr : r = x := by simpa using hx
    subst hr
    refine ⟨[], ?_, rfl, (root_singleton H r).symm⟩
    rw [MerkleTree.proofPath, if_neg (by simp)]
    rfl
termination_by level.length
decreasing_by omega

@[simp] theorem nodes_build (leaves : List (List UInt8)) :
    (MerkleTree.build H leaves).nodes = buildLevels H (leaves.map (leafHash H)) := rfl

@[simp] theorem nLeaves_build (leaves : List (List UInt8)) :
    (MerkleTree.build H leaves).nLeaves = leaves.length := List.length_map _

/-- `get_proof` at or past the number of leaves: the index is out of bounds. -/
theorem getProof_of_le {tree : MerkleTree D} {i : Nat} (h : tree.nLeaves ≤ i) :
    tree.getProof i = .ok (.error (.leafIndexOutOfBounds i)) := by
  rw [MerkleTree.getProof, if_pos h]
  rfl

/-- `get_proof` of a leaf of a built tree does not panic, and its siblings, one per level,
climb the leaf back to the root. -/
theorem getProof_build {leaves : List (List UInt8)} {i : Nat} {d : List UInt8}
    (hd : leaves[i]? = some d) :
    ∃ path, (MerkleTree.build H leaves).getProof i = .ok (.ok ⟨path⟩) ∧
      path.length = pathLength leaves.length ∧
      (path.foldl (climbStep H) (leafHash H d, i)).1 = (MerkleTree.build H leaves).root := by
  have hi : i < leaves.length := (List.getElem?_eq_some_iff.mp hd).1
  have hx : (leaves.map (leafHash H))[i]? = some (leafHash H d) := by
    rw [List.getElem?_map, hd]
    rfl
  obtain ⟨path, hpath, hlen, hroot⟩ := proofPath_buildLevels H [] (leaves.map (leafHash H)) i _ hx
  simp only [List.nil_append, List.length_nil, List.length_map] at hpath hlen
  refine ⟨path, ?_, hlen, hroot⟩
  rw [MerkleTree.getProof, if_neg (by rw [nLeaves_build]; omega), nodes_build, nLeaves_build,
    hpath]
  rfl

/-- Merkle proofs are complete: `get_proof` of a built tree fails exactly past its leaves and
never panics; the proof of a leaf has `path_length n` siblings and `verify_proof` accepts it
against the root. The nodes of a tree are the `n_nodes` that `build_from_leaf_hashes` reserves,
and `build` is `build_from_leaf_hashes` over the leaf hashes. -/
theorem getProof_complete [DecidableEq D] (leaves : List (List UInt8)) (i : Nat) :
    ((∃ e, (MerkleTree.build H leaves).getProof i = .ok (.error e)) ↔ leaves.length ≤ i) ∧
      ((hi : i < leaves.length) → ∃ p, (MerkleTree.build H leaves).getProof i = .ok (.ok p) ∧
        p.path.length = pathLength leaves.length ∧
        p.verifyProof H (MerkleTree.build H leaves).root leaves.length leaves[i] i = .ok ()) ∧
      (∀ leafHashes : List (Node D),
        (MerkleTree.buildFromLeafHashes H leafHashes).nodes.length = nNodes leafHashes.length) ∧
      (MerkleTree.build H leaves).root =
        (MerkleTree.buildFromLeafHashes H (leaves.map (leafHash H))).root := by
  have hproof : ∀ hi : i < leaves.length, ∃ p, (MerkleTree.build H leaves).getProof i =
      .ok (.ok p) ∧ p.path.length = pathLength leaves.length ∧
      p.verifyProof H (MerkleTree.build H leaves).root leaves.length leaves[i] i = .ok () := by
    intro hi
    obtain ⟨path, hget, hlen, hroot⟩ := getProof_build H (List.getElem?_eq_getElem hi)
    have hbits : i < 2 ^ path.length := by
      rw [hlen]
      exact lt_two_pow_pathLength hi
    exact ⟨⟨path⟩, hget, hlen, (verifyProof_eq_ok H).mpr ⟨Nat.le_of_eq hlen, hbits, hroot⟩⟩
  refine ⟨?_, hproof, length_nodes_buildFromLeafHashes H, rfl⟩
  constructor
  · rintro ⟨e, he⟩
    by_contra hlt
    obtain ⟨p, hp, -⟩ := hproof (by omega)
    rw [hp] at he
    cases he
  · intro hle
    exact ⟨_, getProof_of_le (by rw [nLeaves_build]; exact hle)⟩

/-- Digests that are numbers: a leaf hashes to its length, two nodes `a` and `b` to
`2a + 3b + 1`. -/
def numberHash : MerkleHash Nat := ⟨List.length, fun a b => 2 * a + 3 * b + 1, 0⟩

/-- Three leaves: the proof of the second has two siblings and is accepted against the root,
and there is no leaf `3` to prove. -/
theorem getProof_complete_three_leaves :
    (∃ p, (MerkleTree.build numberHash [[1], [2, 3], [4]]).getProof 1 = .ok (.ok p) ∧
      p.path.length = 2 ∧
      p.verifyProof numberHash (MerkleTree.build numberHash [[1], [2, 3], [4]]).root 3 [2, 3] 1 =
        .ok ()) ∧
    ∃ e, (MerkleTree.build numberHash [[1], [2, 3], [4]]).getProof 3 = .ok (.error e) := by
  obtain ⟨-, hproof, -, -⟩ := getProof_complete numberHash [[1], [2, 3], [4]] 1
  obtain ⟨hmissing, -, -, -⟩ := getProof_complete numberHash [[1], [2, 3], [4]] 3
  exact ⟨hproof (by decide), hmissing.mpr (by decide)⟩

end Walrus.Merkle
