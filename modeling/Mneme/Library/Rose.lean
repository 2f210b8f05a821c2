/-
Ordered trees and the nodes of a tree, each with its chain of ancestors.
-/

import Mathlib.Data.List.Infix

namespace Mneme.Library

inductive Rose (Label : Type) where
  | node (label : Label) (children : List (Rose Label))

namespace Rose

variable {Label : Type}

def label : Rose Label → Label
  | .node label _ => label

def children : Rose Label → List (Rose Label)
  | .node _ children => children

end Rose

/-- A node of a tree, its ancestors nearest first. -/
structure Located (Label : Type) where
  tree : Rose Label
  ancestors : List (Rose Label)

namespace Located

variable {Label : Type}

def lineage (node : Located Label) : List (Rose Label) :=
  node.tree :: node.ancestors

def children (node : Located Label) : List (Located Label) :=
  node.tree.children.map (fun child => { tree := child, ancestors := node.lineage })

/-- The node is the other one or an ancestor of it. -/
def Encloses (outer inner : Located Label) : Prop :=
  outer.lineage <:+ inner.lineage

theorem Encloses.refl (node : Located Label) : node.Encloses node :=
  List.suffix_rfl

theorem Encloses.trans {outer middle inner : Located Label} (first : outer.Encloses middle)
    (second : middle.Encloses inner) : outer.Encloses inner :=
  List.IsSuffix.trans first second

theorem encloses_of_child {node child : Located Label} (member : child ∈ node.children) :
    node.Encloses child := by
  unfold children at member
  rw [List.mem_map] at member
  obtain ⟨tree, _, built⟩ := member
  rw [← built]
  exact List.suffix_cons tree node.lineage

mutual

/-- All nodes of a subtree in document order. -/
def nodesOf (ancestors : List (Rose Label)) : Rose Label → List (Located Label)
  | .node label children =>
      { tree := .node label children, ancestors := ancestors } ::
        nodesOfAll (.node label children :: ancestors) children

def nodesOfAll (ancestors : List (Rose Label)) : List (Rose Label) → List (Located Label)
  | [] => []
  | tree :: trees => nodesOf ancestors tree ++ nodesOfAll ancestors trees

end

mutual

/-- All nodes of a subtree in the order of a stack on which a node pushes its
children: the last child is popped first. -/
def poppedOf (ancestors : List (Rose Label)) : Rose Label → List (Located Label)
  | .node label children =>
      { tree := .node label children, ancestors := ancestors } ::
        poppedOfAll (.node label children :: ancestors) children

def poppedOfAll (ancestors : List (Rose Label)) : List (Rose Label) → List (Located Label)
  | [] => []
  | tree :: trees => poppedOfAll ancestors trees ++ poppedOf ancestors tree

end

end Located

end Mneme.Library
