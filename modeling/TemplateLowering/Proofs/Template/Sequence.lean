import TemplateLowering.Template.Node

/-!
# Sequences of nodes

A template is a sequence of nodes, and a node may hold further sequences.  An induction over a
template goes along its sequence and into the sequences of each node.
-/

namespace TemplateLowering.Template

/-- The sequences of nodes that stand directly inside a node. -/
def Node.sequences : Node → List (List Node)
  | .element e => [e.children]
  | .template t => [t.children]
  | .content c => [c.children]
  | .ifBlock branches _ => branches.map IfBranch.children
  | .switchBlock _ switchCases _ => switchCases.map SwitchCase.children
  | .forBlock b => b.children :: b.empty.toList.map ForEmpty.children
  | .deferBlock b =>
      b.children :: (b.loading.toList.map DeferLoading.children ++
        b.placeholder.toList.map DeferPlaceholder.children ++
        b.error.toList.map DeferError.children)
  | _ => []

theorem sizeOf_lt_of_mem_parts {α : Type} [SizeOf α] {children : α → List Node}
    (hchildren : ∀ part, sizeOf (children part) < sizeOf part) {parts : List α}
    {nodes : List Node} (h : nodes ∈ parts.map children) : sizeOf nodes < sizeOf parts := by
  obtain ⟨part, hmem, rfl⟩ := List.mem_map.1 h
  exact Nat.lt_trans (hchildren part) (List.sizeOf_lt_of_mem hmem)

theorem sizeOf_lt_of_mem_part {α : Type} [SizeOf α] {children : α → List Node}
    (hchildren : ∀ part, sizeOf (children part) < sizeOf part) {part : Option α}
    {nodes : List Node} (h : nodes ∈ part.toList.map children) : sizeOf nodes < sizeOf part := by
  cases part with
  | none => simp at h
  | some part =>
    obtain rfl := List.mem_singleton.1 h
    have hlt := hchildren part
    simp only [Option.some.sizeOf_spec]
    omega

theorem Node.sizeOf_lt_of_mem_sequences {node : Node} {nodes : List Node}
    (h : nodes ∈ node.sequences) : sizeOf nodes < sizeOf node := by
  cases node with
  | element e =>
    obtain rfl := List.mem_singleton.1 h
    cases e
    simp
    omega
  | template t =>
    obtain rfl := List.mem_singleton.1 h
    cases t
    simp
    omega
  | content c =>
    obtain rfl := List.mem_singleton.1 h
    cases c
    simp
    omega
  | ifBlock branches block =>
    have hlt := sizeOf_lt_of_mem_parts (fun part => by cases part; simp; omega) h
    simp
    omega
  | switchBlock expression switchCases block =>
    have hlt := sizeOf_lt_of_mem_parts (fun part => by cases part; simp; omega) h
    simp
    omega
  | forBlock b =>
    obtain ⟨item, expression, trackBy, contextVariables, children, empty, block, mainSpan,
      i18n⟩ := b
    rcases List.mem_cons.1 h with rfl | h
    · simp
      omega
    · have hlt := sizeOf_lt_of_mem_part (fun part => by cases part; simp; omega) h
      simp at hlt ⊢
      omega
  | deferBlock b =>
    obtain ⟨children, triggers, prefetch, hydrate, placeholder, loading, error, block, mainSpan,
      i18n⟩ := b
    rcases List.mem_cons.1 h with rfl | h
    · simp
      omega
    rcases List.mem_append.1 h with h | h
    · rcases List.mem_append.1 h with h | h
      · have hlt := sizeOf_lt_of_mem_part (fun part => by cases part; simp; omega) h
        simp at hlt ⊢
        omega
      · have hlt := sizeOf_lt_of_mem_part (fun part => by cases part; simp; omega) h
        simp at hlt ⊢
        omega
    · have hlt := sizeOf_lt_of_mem_part (fun part => by cases part; simp; omega) h
      simp at hlt ⊢
      omega
  | _ => simp [Node.sequences] at h

theorem Node.induction_sequences {P : List Node → Prop} (nil : P [])
    (cons : ∀ node nodes, (∀ inner ∈ Node.sequences node, P inner) → P nodes → P (node :: nodes)) :
    ∀ nodes, P nodes
  | [] => nil
  | node :: nodes => by
    refine cons node nodes ?_ (induction_sequences nil cons nodes)
    intro inner hinner
    have hlt := Node.sizeOf_lt_of_mem_sequences hinner
    exact induction_sequences nil cons inner
termination_by nodes => sizeOf nodes
decreasing_by
  · rw [List.cons.sizeOf_spec]
    omega
  · rw [List.cons.sizeOf_spec]
    omega

end TemplateLowering.Template
