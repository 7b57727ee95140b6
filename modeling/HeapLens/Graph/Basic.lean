set_option autoImplicit false

namespace HeapLens

/-- A graph with roots; a node may refer to another one several times. -/
structure Graph where
  successors : Array (List Nat)
  roots : List Nat
  deriving Repr

namespace Graph

def size (g : Graph) : Nat := g.successors.size

/-- The vertex above the roots. -/
def top (g : Graph) : Nat := g.size

def targets (g : Graph) (v : Nat) : List Nat :=
  if v = g.top then g.roots else g.successors[v]?.getD []

/-- Whether every target of every vertex is a node. -/
def InRange (g : Graph) : Prop :=
  ∀ v, ∀ w ∈ g.targets v, w < g.size

/-- `g.Path v vs w`: a walk along references from `v` to `w`, whose vertices before `w` are `vs`. -/
inductive Path (g : Graph) : Nat → List Nat → Nat → Prop where
  | here (v : Nat) : Path g v [] v
  | step {v u w : Nat} {vs : List Nat} : u ∈ g.targets v → Path g u vs w → Path g v (v :: vs) w

/-- Whether a walk leads from the roots to `v`. -/
def Reachable (g : Graph) (v : Nat) : Prop :=
  ∃ vs, g.Path g.top vs v

/-- Whether every walk from the roots to `v` passes through `d`. -/
def Dominates (g : Graph) (d v : Nat) : Prop :=
  ∀ vs, g.Path g.top vs v → d ∈ vs ∨ d = v

end Graph

end HeapLens
