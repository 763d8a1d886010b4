import TemplateLowering.I18n.Message
import Mathlib.Data.List.Nodup
import Mathlib.Data.List.Perm.Subperm

/-!
# Messages that are the same

The cases of an ICU expression are a map from names to nodes, which `insertCase` builds up.  As long
as no name comes twice, to be the same is an equivalence of messages.
-/

namespace TemplateLowering.I18n

variable {cases others : List IcuCase}

mutual

/-- Whether no ICU expression below the node lists a name twice. -/
def Node.hasDistinctCases : Node → Bool
  | .text .. | .placeholder .. => true
  | .container children _ => haveDistinctCases children
  | .icu icu => icu.hasDistinctCases
  | .tagPlaceholder placeholder => placeholder.hasDistinctCases
  | .icuPlaceholder value _ _ => value.hasDistinctCases
  | .blockPlaceholder placeholder => placeholder.hasDistinctCases

def haveDistinctCases : List Node → Bool
  | [] => true
  | node :: nodes => node.hasDistinctCases && haveDistinctCases nodes

def Icu.hasDistinctCases : Icu → Bool
  | { cases, .. } => decide (cases.map IcuCase.name).Nodup && bodiesHaveDistinctCases cases

def bodiesHaveDistinctCases : List IcuCase → Bool
  | [] => true
  | { body, .. } :: rest => body.hasDistinctCases && bodiesHaveDistinctCases rest

def TagPlaceholder.hasDistinctCases : TagPlaceholder → Bool
  | { children, .. } => haveDistinctCases children

def BlockPlaceholder.hasDistinctCases : BlockPlaceholder → Bool
  | { children, .. } => haveDistinctCases children

end

def Message.hasDistinctCases (message : Message) : Bool :=
  haveDistinctCases message.nodes

theorem findCase?_eq_some (h : (cases.map IcuCase.name).Nodup) {case : IcuCase}
    (hcase : case ∈ cases) : findCase? case.name cases = some case.body := by
  induction cases with
  | nil => simp at hcase
  | cons known rest ih =>
    rw [List.map_cons, List.nodup_cons] at h
    rcases List.mem_cons.1 hcase with rfl | hcase
    · simp [findCase?]
    · have hname : known.name ≠ case.name := fun heq =>
        h.1 (heq ▸ List.mem_map_of_mem hcase)
      rw [findCase?, if_neg hname]
      exact ih h.2 hcase

mutual

theorem Node.same_self : ∀ node : Node, node.hasDistinctCases → node.same node
  | .text .., _ => by simp [Node.same]
  | .placeholder .., _ => by simp [Node.same]
  | .container children _, h => by simp [Node.same, sameNodes_self children h]
  | .icu icu, h => by simp [Node.same, icu.same_self h]
  | .tagPlaceholder placeholder, h => by simp [Node.same, placeholder.same_self h]
  | .icuPlaceholder value _ _, h => by simp [Node.same, value.same_self h]
  | .blockPlaceholder placeholder, h => by simp [Node.same, placeholder.same_self h]

theorem sameNodes_self : ∀ nodes : List Node, haveDistinctCases nodes → sameNodes nodes nodes
  | [], _ => by simp [sameNodes]
  | node :: nodes, h => by
    simp only [haveDistinctCases, Bool.and_eq_true] at h
    simp [sameNodes, node.same_self h.1, sameNodes_self nodes h.2]

theorem Icu.same_self : ∀ icu : Icu, icu.hasDistinctCases → icu.same icu
  | { expression, type, cases, span, expressionPlaceholder }, h => by
    simp only [Icu.hasDistinctCases, Bool.and_eq_true, decide_eq_true_eq] at h
    simp [Icu.same, sameCases_of_find cases cases (fun _ => findCase?_eq_some h.1) h.2]

theorem sameCases_of_find : ∀ cases others : List IcuCase,
    (∀ case ∈ cases, findCase? case.name others = some case.body) →
    bodiesHaveDistinctCases cases → sameCases cases others
  | [], _, _, _ => by simp [sameCases]
  | { name, body } :: rest, others, hfind, h => by
    simp only [bodiesHaveDistinctCases, Bool.and_eq_true] at h
    rw [List.forall_mem_cons] at hfind
    simp [sameCases, hfind.1, body.same_self h.1, sameCases_of_find rest others hfind.2 h.2]

theorem TagPlaceholder.same_self : ∀ placeholder : TagPlaceholder,
    placeholder.hasDistinctCases → placeholder.same placeholder
  | { tag, startName, closeName, children, isVoid, span }, h => by
    simp [TagPlaceholder.same, sameNodes_self children h]

theorem BlockPlaceholder.same_self : ∀ placeholder : BlockPlaceholder,
    placeholder.hasDistinctCases → placeholder.same placeholder
  | { name, parameters, startName, closeName, children, span }, h => by
    simp [BlockPlaceholder.same, sameNodes_self children h]

end

theorem Message.same_self {message : Message} (h : message.hasDistinctCases) :
    message.same message := by
  simp [Message.same, sameNodes_self message.nodes h]

/-! ## Messages that are the same as one message -/

theorem mem_of_findCase? {name : String} {body : Node} (h : findCase? name cases = some body) :
    ⟨name, body⟩ ∈ cases := by
  induction cases with
  | nil => simp [findCase?] at h
  | cons known rest ih =>
    obtain ⟨other, body'⟩ := known
    by_cases hname : other = name
    · subst hname
      obtain rfl : body' = body := by simpa [findCase?] using h
      exact List.mem_cons_self
    · rw [findCase?, if_neg hname] at h
      exact List.mem_cons_of_mem _ (ih h)

theorem sameCases_iff :
    sameCases cases others = true ↔
      ∀ case ∈ cases, ∃ body, findCase? case.name others = some body ∧
        case.body.same body = true := by
  induction cases with
  | nil => simp [sameCases]
  | cons case rest ih =>
    obtain ⟨name, body⟩ := case
    rw [sameCases, Bool.and_eq_true, ih, List.forall_mem_cons]
    cases findCase? name others <;> simp

theorem hasDistinctCases_of_mem (h : bodiesHaveDistinctCases cases) {case : IcuCase}
    (hcase : case ∈ cases) : case.body.hasDistinctCases := by
  induction cases with
  | nil => simp at hcase
  | cons known rest ih =>
    obtain ⟨name, body⟩ := known
    simp only [bodiesHaveDistinctCases, Bool.and_eq_true] at h
    rcases List.mem_cons.1 hcase with rfl | hcase
    · exact h.1
    · exact ih h.2 hcase

/-- Cases that are the same as those of one expression are the same as each other, where this holds
of their bodies.  As many names that are different are the same names. -/
theorem sameCases_of_sameCases {anothers : List IcuCase} (hnodup : (cases.map IcuCase.name).Nodup)
    (hnodup' : (others.map IcuCase.name).Nodup) (hlength : cases.length = others.length)
    (h : sameCases cases others) (h' : sameCases cases anothers)
    (hbodies : ∀ case ∈ cases, ∀ other ∈ others, ∀ body, case.body.same other.body →
      case.body.same body → other.body.same body) : sameCases others anothers := by
  rw [sameCases_iff] at h h' ⊢
  have hsubset : cases.map IcuCase.name ⊆ others.map IcuCase.name := by
    intro name hname
    obtain ⟨case, hcase, rfl⟩ := List.mem_map.1 hname
    obtain ⟨body, hfind, -⟩ := h case hcase
    exact List.mem_map.2 ⟨_, mem_of_findCase? hfind, rfl⟩
  have hperm : (cases.map IcuCase.name).Perm (others.map IcuCase.name) :=
    (List.subperm_of_subset hnodup hsubset).perm_of_length_le (by simp [hlength])
  intro other hother
  obtain ⟨case, hcase, hname⟩ :=
    List.mem_map.1 (hperm.mem_iff.2 (List.mem_map_of_mem (f := IcuCase.name) hother))
  obtain ⟨body, hfind, hsame⟩ := h case hcase
  obtain ⟨body', hfind', hsame'⟩ := h' case hcase
  rw [hname, findCase?_eq_some hnodup' hother] at hfind
  obtain rfl := Option.some.inj hfind
  exact ⟨body', hname ▸ hfind', hbodies case hcase other hother body' hsame hsame'⟩

mutual

theorem Node.same_of_same : ∀ node other another : Node, node.hasDistinctCases →
    other.hasDistinctCases → node.same other → node.same another → other.same another
  | .text .., other, another, _, _, h, h' => by
    cases other <;> simp only [Node.same, Bool.false_eq_true] at h
    cases another <;> simp_all [Node.same]
  | .placeholder .., other, another, _, _, h, h' => by
    cases other <;> simp only [Node.same, Bool.false_eq_true] at h
    cases another <;> simp_all [Node.same]
  | .container children _, other, another, hnode, hother, h, h' => by
    cases other <;> simp only [Node.same, Bool.false_eq_true] at h
    cases another <;> simp only [Node.same, Bool.false_eq_true] at h'
    simp only [Bool.and_eq_true, beq_iff_eq] at h h'
    simp [Node.same, sameNodes_of_sameNodes children _ _ hnode hother h.1 h'.1, ← h.2, ← h'.2]
  | .icu icu, other, another, hnode, hother, h, h' => by
    cases other <;> simp only [Node.same, Bool.false_eq_true] at h
    cases another <;> simp only [Node.same, Bool.false_eq_true] at h'
    rw [Node.same]
    exact icu.same_of_same _ _ hnode hother h h'
  | .tagPlaceholder placeholder, other, another, hnode, hother, h, h' => by
    cases other <;> simp only [Node.same, Bool.false_eq_true] at h
    cases another <;> simp only [Node.same, Bool.false_eq_true] at h'
    rw [Node.same]
    exact placeholder.same_of_same _ _ hnode hother h h'
  | .icuPlaceholder value _ _, other, another, hnode, hother, h, h' => by
    cases other <;> simp only [Node.same, Bool.false_eq_true] at h
    cases another <;> simp only [Node.same, Bool.false_eq_true] at h'
    simp only [Bool.and_eq_true, beq_iff_eq] at h h'
    simp [Node.same, value.same_of_same _ _ hnode hother h.1.1 h'.1.1, ← h.1.2, ← h'.1.2, ← h.2,
      ← h'.2]
  | .blockPlaceholder placeholder, other, another, hnode, hother, h, h' => by
    cases other <;> simp only [Node.same, Bool.false_eq_true] at h
    cases another <;> simp only [Node.same, Bool.false_eq_true] at h'
    rw [Node.same]
    exact placeholder.same_of_same _ _ hnode hother h h'

theorem sameNodes_of_sameNodes : ∀ nodes others anothers : List Node,
    haveDistinctCases nodes → haveDistinctCases others → sameNodes nodes others →
    sameNodes nodes anothers → sameNodes others anothers
  | [], others, anothers, _, _, h, h' => by
    cases others <;> cases anothers <;> simp_all [sameNodes]
  | node :: nodes, others, anothers, hnodes, hothers, h, h' => by
    cases others <;> simp only [sameNodes, Bool.false_eq_true] at h
    cases anothers <;> simp only [sameNodes, Bool.false_eq_true] at h'
    simp only [haveDistinctCases, Bool.and_eq_true] at hnodes hothers h h' ⊢
    simp only [sameNodes, Bool.and_eq_true]
    exact ⟨node.same_of_same _ _ hnodes.1 hothers.1 h.1 h'.1,
      sameNodes_of_sameNodes nodes _ _ hnodes.2 hothers.2 h.2 h'.2⟩

theorem Icu.same_of_same : ∀ icu other another : Icu, icu.hasDistinctCases →
    other.hasDistinctCases → icu.same other → icu.same another → other.same another
  | { expression, type, cases, span, expressionPlaceholder }, { cases := others, .. },
      { cases := anothers, .. }, hicu, hother, h, h' => by
    simp only [Icu.hasDistinctCases, Icu.same, Bool.and_eq_true, decide_eq_true_eq, beq_iff_eq]
      at hicu hother h h' ⊢
    obtain ⟨⟨⟨⟨rfl, rfl⟩, hlength, hcases⟩, rfl⟩, rfl⟩ := h
    obtain ⟨⟨⟨⟨rfl, rfl⟩, hlength', hcases'⟩, rfl⟩, rfl⟩ := h'
    have hbodies := bodies_same_of_same cases hicu.2
    refine ⟨⟨⟨⟨rfl, rfl⟩, hlength.symm.trans hlength', ?_⟩, rfl⟩, rfl⟩
    exact sameCases_of_sameCases hicu.1 hother.1 hlength hcases hcases' fun case hcase other hmem =>
      hbodies case hcase other.body (hasDistinctCases_of_mem hother.2 hmem)

theorem bodies_same_of_same : ∀ cases : List IcuCase, bodiesHaveDistinctCases cases →
    ∀ case ∈ cases, ∀ other : Node, other.hasDistinctCases → ∀ another,
      case.body.same other → case.body.same another → other.same another
  | [], _ => by simp
  | { name, body } :: rest, h => by
    simp only [bodiesHaveDistinctCases, Bool.and_eq_true] at h
    rw [List.forall_mem_cons]
    exact ⟨fun other hother another => body.same_of_same other another h.1 hother,
      bodies_same_of_same rest h.2⟩

theorem TagPlaceholder.same_of_same : ∀ placeholder other another : TagPlaceholder,
    placeholder.hasDistinctCases → other.hasDistinctCases →
    placeholder.same other → placeholder.same another → other.same another
  | { children, .. }, { children := others, .. }, { children := anothers, .. }, hnode, hother, h,
      h' => by
    simp only [TagPlaceholder.hasDistinctCases, TagPlaceholder.same, Bool.and_eq_true, beq_iff_eq]
      at hnode hother h h' ⊢
    simp [sameNodes_of_sameNodes children others anothers hnode hother h.1.1.2 h'.1.1.2, ← h, ← h']

theorem BlockPlaceholder.same_of_same : ∀ placeholder other another : BlockPlaceholder,
    placeholder.hasDistinctCases → other.hasDistinctCases →
    placeholder.same other → placeholder.same another → other.same another
  | { children, .. }, { children := others, .. }, { children := anothers, .. }, hnode, hother, h,
      h' => by
    simp only [BlockPlaceholder.hasDistinctCases, BlockPlaceholder.same, Bool.and_eq_true,
      beq_iff_eq] at hnode hother h h' ⊢
    simp [sameNodes_of_sameNodes children others anothers hnode hother h.1.2 h'.1.2, ← h, ← h']

end

namespace Message

variable {a b c : Message}

theorem same_of_same (ha : a.hasDistinctCases) (hb : b.hasDistinctCases)
    (h : a.same b) (h' : a.same c) : b.same c := by
  simp only [same, Bool.and_eq_true, beq_iff_eq] at h h' ⊢
  simp [sameNodes_of_sameNodes _ _ _ ha hb h.1.1.1.1.1 h'.1.1.1.1.1, ← h, ← h']

theorem same_symm (ha : a.hasDistinctCases) (hb : b.hasDistinctCases) (h : a.same b) : b.same a :=
  same_of_same ha hb h (same_self ha)

theorem same_trans (ha : a.hasDistinctCases) (hb : b.hasDistinctCases)
    (h : a.same b) (h' : b.same c) : a.same c :=
  same_of_same hb ha (same_symm ha hb h) h'

end Message
end TemplateLowering.I18n
