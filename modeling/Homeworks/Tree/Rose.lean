import Mathlib.Data.List.Nodup
import Mathlib.Data.List.Pairwise

/-!
# Rose trees

A rose tree has a value and a list of trees as its children.  A subtree is found by an address,
the list of the child indices on the way to it, or by a path, the sequence of the subtrees on the
way to it.
-/

inductive Rose (α : Type*) where
  | node (value : α) (children : List (Rose α))

namespace Rose

variable {α κ : Type*}

def value : Rose α → α
  | node value _ => value

def children : Rose α → List (Rose α)
  | node _ children => children

@[simp]
theorem value_node (value : α) (children : List (Rose α)) :
  (node value children).value = value
  := rfl

@[simp]
theorem children_node (value : α) (children : List (Rose α)) :
  (node value children).children = children
  := rfl

/-- A property holds of every tree if it holds of a tree whenever it holds of its children. -/
theorem induction {P : Rose α → Prop}
    (h : ∀ tree : Rose α, (∀ child ∈ tree.children, P child) → P tree) (tree : Rose α) :
  P tree
  := by
  refine h tree fun child hchild => ?_
  have hlt : sizeOf child < sizeOf tree := by
    cases tree with
    | node value children =>
        have hlt : sizeOf child < sizeOf children := List.sizeOf_lt_of_mem hchild
        rw [node.sizeOf_spec]
        omega
  exact induction h child

/-! ### Subtrees -/

mutual

/-- The subtrees in preorder. -/
def subtrees : Rose α → List (Rose α)
  | node value children => node value children :: subtreesOf children

def subtreesOf : List (Rose α) → List (Rose α)
  | [] => []
  | tree :: rest => tree.subtrees ++ subtreesOf rest

end

theorem subtreesOf_eq (trees : List (Rose α)) :
  subtreesOf trees = trees.flatMap subtrees
  := by
  induction trees with
  | nil => rfl
  | cons tree rest ih => rw [subtreesOf, ih, List.flatMap_cons]

theorem subtrees_eq (tree : Rose α) :
  tree.subtrees = tree :: tree.children.flatMap subtrees
  := by
  cases tree with
  | node value children => rw [subtrees, subtreesOf_eq, children_node]

theorem self_mem_subtrees (tree : Rose α) :
  tree ∈ tree.subtrees
  := by
  rw [subtrees_eq]
  exact List.mem_cons_self

theorem mem_subtrees {tree sub : Rose α} :
  sub ∈ tree.subtrees ↔ sub = tree ∨ ∃ child ∈ tree.children, sub ∈ child.subtrees
  := by
  rw [subtrees_eq, List.mem_cons, List.mem_flatMap]

theorem subtrees_trans {tree sub other : Rose α} (h : sub ∈ tree.subtrees)
    (h' : other ∈ sub.subtrees) :
  other ∈ tree.subtrees
  := by
  induction tree using induction with
  | h tree ih =>
      rcases mem_subtrees.mp h with rfl | ⟨child, hchild, hsub⟩
      · exact h'
      · exact mem_subtrees.mpr (.inr ⟨child, hchild, ih child hchild hsub⟩)

/-! ### Addresses -/

/-- The subtree at an address. -/
def at? (tree : Rose α) : List Nat → Option (Rose α)
  | [] => some tree
  | i :: path => tree.children[i]?.bind fun child => child.at? path

/-- The tree after the subtree at an address has been changed. -/
def modifyAt (f : Rose α → Rose α) : List Nat → Rose α → Rose α
  | [], tree => f tree
  | i :: path, tree => node tree.value (tree.children.modify i (modifyAt f path))

theorem at?_append (tree : Rose α) (path rest : List Nat) :
  tree.at? (path ++ rest) = (tree.at? path).bind fun sub => sub.at? rest
  := by
  induction path generalizing tree with
  | nil => rfl
  | cons i path ih =>
      rw [List.cons_append, at?, at?]
      cases tree.children[i]? with
      | none => rfl
      | some child => exact ih child

theorem mem_subtrees_of_at? {path : List Nat} {tree sub : Rose α}
    (h : tree.at? path = some sub) :
  sub ∈ tree.subtrees
  := by
  induction path generalizing tree with
  | nil =>
      rw [at?, Option.some.injEq] at h
      rw [← h]
      exact self_mem_subtrees tree
  | cons i path ih =>
      rw [at?, Option.bind_eq_some_iff] at h
      obtain ⟨child, hchild, hsub⟩ := h
      exact mem_subtrees.mpr (.inr ⟨child, List.mem_of_getElem? hchild, ih hsub⟩)

/-- A change below a child leaves the value and the other children. -/
theorem modifyAt_cons (f : Rose α → Rose α) {i : Nat} {path : List Nat} {tree sub : Rose α}
    (h : tree.at? (i :: path) = some sub) :
  ∃ (before : List (Rose α)) (child : Rose α) (after : List (Rose α)),
    child.at? path = some sub
      ∧ tree.children = before ++ child :: after
      ∧ modifyAt f (i :: path) tree
          = node tree.value (before ++ modifyAt f path child :: after)
  := by
  rw [at?, Option.bind_eq_some_iff] at h
  obtain ⟨child, hchild, hsub⟩ := h
  obtain ⟨hi, hget⟩ := List.getElem?_eq_some_iff.mp hchild
  have hsplit : tree.children = tree.children.take i ++ child :: tree.children.drop (i + 1) := by
    rw [← hget, ← List.drop_eq_getElem_cons hi, List.take_append_drop]
  refine ⟨tree.children.take i, child, tree.children.drop (i + 1), hsub, hsplit, ?_⟩
  rw [modifyAt, List.modify_eq_take_cons_drop hi, hget]

/-- The keys of the subtrees when a change has added one. -/
theorem modifyAt_perm (f : Rose α → Rose α) (key : α → κ) {added : κ} {path : List Nat}
    {tree sub : Rose α} (h : tree.at? path = some sub)
    (hf : ((f sub).subtrees.map fun sub => key sub.value).Perm
      (added :: sub.subtrees.map fun sub => key sub.value)) :
  ((modifyAt f path tree).subtrees.map fun sub => key sub.value).Perm
    (added :: tree.subtrees.map fun sub => key sub.value)
  := by
  induction path generalizing tree with
  | nil =>
      rw [at?, Option.some.injEq] at h
      rw [modifyAt, h]
      exact hf
  | cons i path ih =>
      obtain ⟨before, child, after, hsub, hchildren, hmodify⟩ := modifyAt_cons f h
      rw [hmodify, subtrees_eq, subtrees_eq tree, children_node, hchildren, List.map_cons,
        List.map_cons, value_node, List.flatMap_append, List.flatMap_append, List.flatMap_cons,
        List.flatMap_cons, List.map_append, List.map_append, List.map_append, List.map_append]
      have hmiddle := (((ih hsub).append_right
          ((after.flatMap subtrees).map fun sub => key sub.value)).append_left
        ((before.flatMap subtrees).map fun sub => key sub.value)).trans List.perm_middle
      exact (hmiddle.cons (key tree.value)).trans (.swap _ _ _)

/-- A property of the value of a tree and of the keys of its children holds of every subtree after
a change of one that keeps its key. -/
theorem forall_modifyAt (f : Rose α → Rose α) (key : α → κ) {P : Rose α → Prop}
    (hlocal : ∀ tree other : Rose α, tree.value = other.value →
      (tree.children.map fun child => key child.value)
        = (other.children.map fun child => key child.value) → P tree → P other)
    {path : List Nat} {tree sub : Rose α} (h : tree.at? path = some sub)
    (hkey : key (f sub).value = key sub.value) (hf : ∀ other ∈ (f sub).subtrees, P other)
    (htree : ∀ other ∈ tree.subtrees, P other) :
  key (modifyAt f path tree).value = key tree.value
    ∧ ∀ other ∈ (modifyAt f path tree).subtrees, P other
  := by
  induction path generalizing tree with
  | nil =>
      rw [at?, Option.some.injEq] at h
      rw [modifyAt, h]
      exact ⟨hkey, hf⟩
  | cons i path ih =>
      obtain ⟨before, child, after, hsub, hchildren, hmodify⟩ := modifyAt_cons f h
      have hbelow : ∀ below ∈ before ++ child :: after, ∀ other ∈ below.subtrees, P other := by
        intro below hbelow other hother
        exact htree other (mem_subtrees.mpr (.inr ⟨below, hchildren ▸ hbelow, hother⟩))
      obtain ⟨hchild, hchanged⟩ := ih hsub (hbelow child (by simp))
      rw [hmodify]
      refine ⟨rfl, fun other hother => ?_⟩
      rcases mem_subtrees.mp hother with hother | ⟨below, hmem, hother⟩
      · rw [hother]
        apply hlocal tree (node _ _) rfl _ (htree tree (self_mem_subtrees tree))
        rw [hchildren, children_node, List.map_append, List.map_append, List.map_cons,
          List.map_cons,
          hchild]
      · rw [children_node, List.mem_append, List.mem_cons] at hmem
        rcases hmem with hmem | rfl | hmem
        · exact hbelow below (by simp [hmem]) other hother
        · exact hchanged other hother
        · exact hbelow below (by simp [hmem]) other hother

/-! ### Paths -/

/-- The subtrees on the way from a tree to one of its subtrees. -/
inductive IsPath : Rose α → List (Rose α) → Rose α → Prop where
  | root (tree : Rose α) : IsPath tree [tree] tree
  | child {tree child sub : Rose α} {path : List (Rose α)} (hchild : child ∈ tree.children)
      (hpath : IsPath child path sub) : IsPath tree (tree :: path) sub

theorem IsPath.mem {tree sub : Rose α} {path : List (Rose α)} (h : IsPath tree path sub) :
  sub ∈ tree.subtrees
  := by
  induction h with
  | root tree => exact self_mem_subtrees tree
  | child hchild _ ih => exact mem_subtrees.mpr (.inr ⟨_, hchild, ih⟩)

/-- There is one path to a subtree if the keys are pairwise different. -/
theorem IsPath.unique (key : α → κ) {tree sub sub' : Rose α} {path path' : List (Rose α)}
    (hnodup : (tree.subtrees.map fun sub => key sub.value).Nodup) (h : IsPath tree path sub)
    (h' : IsPath tree path' sub') (hkey : key sub.value = key sub'.value) :
  path = path'
  := by
  induction h generalizing path' with
  | root tree =>
      cases h' with
      | root => rfl
      | child hchild hpath =>
          rw [subtrees_eq, List.map_cons, List.nodup_cons] at hnodup
          refine absurd ?_ hnodup.1
          rw [hkey]
          exact List.mem_map_of_mem (List.mem_flatMap.mpr ⟨_, hchild, hpath.mem⟩)
  | @child tree child sub path hchild hpath ih =>
      rw [subtrees_eq, List.map_cons, List.nodup_cons, List.map_flatMap, List.nodup_flatMap]
        at hnodup
      cases h' with
      | root =>
          refine absurd ?_ hnodup.1
          rw [← hkey]
          exact List.mem_flatMap.mpr ⟨_, hchild, List.mem_map_of_mem hpath.mem⟩
      | @child _ child' _ path' hchild' hpath' =>
          have hchildren : child = child' := by
            by_contra hne
            have : Std.Symm (Function.onFun List.Disjoint fun child : Rose α =>
                child.subtrees.map fun sub => key sub.value) :=
              ⟨fun _ _ h _ ha hb => h hb ha⟩
            have hdisjoint := hnodup.2.2.forall hchild hchild' hne
            exact hdisjoint (List.mem_map_of_mem hpath.mem)
              (hkey ▸ List.mem_map_of_mem hpath'.mem)
          subst hchildren
          rw [ih (hnodup.2.1 child hchild) hpath' hkey]

end Rose
