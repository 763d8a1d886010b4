import Mathlib.Data.List.DropRight
import Mathlib.Tactic
import TemplateLowering.Security

/-!
# Security contexts of a selector

The contexts of a property on the elements that a selector matches are collected from the schema.
An alternative that names no element matches elements with any tag, most of which the schema does
not mention.  Its contexts are still complete: a tag that the schema does not mention has the context
of the entry for every element, and that entry is tried along with the others.
-/

namespace TemplateLowering.SecurityContext

variable {prop : String} {isAttribute : Bool} {part : List Char} {context : SecurityContext}

/-! ## Tags -/

theorem lookupKey_schema : ∀ entry ∈ schema, Text.lookupKey entry.1.1 = entry.1.1 := by
  decide +kernel

theorem ofProperty_wildcard (prop : String) (isAttribute : Bool) :
    ofProperty "*" prop isAttribute =
      (schema.lookup ("*", Text.lookupKey
        (if isAttribute then propertyOfAttribute prop else prop))).getD none := by
  have hkey : Text.lookupKey "*" = "*" := by decide +kernel
  simp only [ofProperty, hkey]
  split
  · rename_i found hfound
    rw [hfound, Option.getD_some]
  · rfl

/-- A property has the context that it has on an element of the schema, whatever the element. -/
theorem exists_schema_ofProperty (tag prop : String) (isAttribute : Bool) :
    ∃ entry ∈ schema, ofProperty entry.1.1 prop isAttribute = ofProperty tag prop isAttribute := by
  cases hlookup : schema.lookup (Text.lookupKey tag, Text.lookupKey
      (if isAttribute then propertyOfAttribute prop else prop)) with
  | some found =>
    obtain ⟨entry, hentry, hkey⟩ := List.lookup_isSome_iff.1 (Option.isSome_of_eq_some hlookup)
    have htag : Text.lookupKey entry.1.1 = Text.lookupKey tag := by
      rw [lookupKey_schema entry hentry, ← eq_of_beq hkey]
    exact ⟨entry, hentry, by simp only [ofProperty, htag]⟩
  | none =>
    have hwildcard : ∃ entry ∈ schema, entry.1.1 = "*" := by decide +kernel
    obtain ⟨entry, hentry, htag⟩ := hwildcard
    refine ⟨entry, hentry, ?_⟩
    rw [htag, ofProperty_wildcard]
    simp only [ofProperty, hlookup]

/-! ## Alternatives -/

/-- The characters of an element name. -/
def isNameChar (c : Char) : Bool :=
  c.isAlphanum || c == '-'

/-- The alternative without the white space around it. -/
def trimmed (part : List Char) : List Char :=
  (part.dropWhile Text.isBlank).rdropWhile Text.isBlank

/-- The alternative starts with the name of an element, which goes as far as there are characters of
a name. -/
def NamesElement (part : List Char) (tag : String) : Prop :=
  tag ≠ "" ∧ tag.toList = (trimmed part).takeWhile isNameChar

theorem not_isNameChar_of_isBlank {c : Char} (h : Text.isBlank c = true) : ¬isNameChar c := by
  unfold Text.isBlank at h
  unfold isNameChar
  delta Char.isAlphanum Char.isAlpha Char.isUpper Char.isLower Char.isDigit
  simp only [UInt32.le_iff_toNat_le, Char.toNat_val, Bool.or_eq_true, Bool.and_eq_true,
    decide_eq_true_eq, beq_iff_eq, Char.reduceToNat] at h ⊢
  rintro (hname | rfl)
  · omega
  · simp at h

theorem takeWhile_rdropWhile (cs : List Char) :
    (cs.rdropWhile Text.isBlank).takeWhile isNameChar = cs.takeWhile isNameChar := by
  induction cs using List.reverseRecOn with
  | nil => rfl
  | append_singleton cs c ih =>
    by_cases hblank : Text.isBlank c = true
    · rw [List.rdropWhile_concat_pos _ _ _ hblank, ih, List.takeWhile_append]
      split_ifs with hlength
      · rw [(List.takeWhile_prefix _).eq_of_length hlength]
        simp [not_isNameChar_of_isBlank hblank]
      · rfl
    · rw [List.rdropWhile_concat_neg _ _ _ hblank]

theorem toList_elementOfSelector (part : List Char) :
    (elementOfSelector part).toList = (trimmed part).takeWhile isNameChar := by
  rw [trimmed, takeWhile_rdropWhile, elementOfSelector, String.toList_ofList]
  rfl

theorem namesElement_iff {tag : String} :
    NamesElement part tag ↔ elementOfSelector part ≠ "" ∧ tag = elementOfSelector part := by
  rw [NamesElement, ← toList_elementOfSelector, String.toList_inj]
  constructor
  · rintro ⟨hne, rfl⟩
    exact ⟨hne, rfl⟩
  · rintro ⟨hne, rfl⟩
    exact ⟨hne, rfl⟩

theorem splitCommas_eq_splitOn (cs : List Char) : splitCommas cs = cs.splitOn ',' := by
  induction cs with
  | nil => rfl
  | cons c cs ih =>
    rw [splitCommas, List.splitOn, List.splitOnP_cons_eq_if_modifyHead, ih, List.splitOn]
    simp only [beq_iff_eq]
    split_ifs with hcomma
    · rfl
    · cases hsplit : cs.splitOnP (· == ',') with
      | nil => exact absurd hsplit (List.splitOnP_ne_nil _ _)
      | cons first rest => rfl

/-- The alternative admits the context: it is the one on the element that the alternative names, or
the one on any element when it names none. -/
def Admits (prop : String) (isAttribute : Bool) (part : List Char) (context : SecurityContext) :
    Prop :=
  (∃ tag, NamesElement part tag ∧ context = ofProperty tag prop isAttribute) ∨
    (¬∃ tag, NamesElement part tag) ∧ ∃ tag, context = ofProperty tag prop isAttribute

theorem exists_admits (prop : String) (isAttribute : Bool) (part : List Char) :
    ∃ context, Admits prop isAttribute part context := by
  by_cases hnamed : ∃ tag, NamesElement part tag
  · obtain ⟨tag, htag⟩ := hnamed
    exact ⟨_, .inl ⟨tag, htag, rfl⟩⟩
  · exact ⟨_, .inr ⟨hnamed, "", rfl⟩⟩

theorem mem_contextsOfPart :
    context ∈ contextsOfPart prop isAttribute part ↔ Admits prop isAttribute part context := by
  by_cases hempty : elementOfSelector part = ""
  · have hunnamed : ¬∃ tag, NamesElement part tag := by simp [namesElement_iff, hempty]
    have hcontexts : contextsOfPart prop isAttribute part =
        schema.map fun entry => ofProperty entry.1.1 prop isAttribute :=
      if_pos (String.isEmpty_iff.2 hempty)
    rw [hcontexts, List.mem_map]
    constructor
    · rintro ⟨entry, -, rfl⟩
      exact .inr ⟨hunnamed, _, rfl⟩
    · rintro (⟨tag, htag, -⟩ | ⟨-, tag, rfl⟩)
      · exact absurd ⟨tag, htag⟩ hunnamed
      · exact exists_schema_ofProperty tag prop isAttribute
  · have hcontexts : contextsOfPart prop isAttribute part =
        [ofProperty (elementOfSelector part) prop isAttribute] :=
      if_neg (by simpa using hempty)
    simp [hcontexts, Admits, namesElement_iff, hempty]

/-- The contexts of a selector come in increasing order, there is at least one, and they are those
that its alternatives admit.  So an alternative without an element misses no context, whatever the
tags of the elements it matches. -/
theorem possibleContexts_exact (selector prop : String) (isAttribute : Bool) :
    let contexts := possibleContexts selector prop isAttribute
    contexts.Pairwise (fun c d => c.rank < d.rank) ∧ contexts ≠ [] ∧
      ∀ context, context ∈ contexts ↔
        ∃ part ∈ selector.toList.splitOn ',', Admits prop isAttribute part context := by
  intro contexts
  have hmem : ∀ context, context ∈ contexts ↔
      ∃ part ∈ selector.toList.splitOn ',', Admits prop isAttribute part context := by
    intro context
    have hall : context ∈ all := by cases context <;> decide
    simp [contexts, possibleContexts, hall, splitCommas_eq_splitOn, mem_contextsOfPart]
  refine ⟨List.Pairwise.filter _ (by decide), ?_, hmem⟩
  obtain ⟨part, parts, hparts⟩ := List.exists_cons_of_ne_nil (List.splitOn_ne_nil ',' selector.toList)
  obtain ⟨context, hcontext⟩ := exists_admits prop isAttribute part
  exact List.ne_nil_of_mem ((hmem context).2 ⟨part, by simp [hparts], hcontext⟩)

end TemplateLowering.SecurityContext
