import TemplateLowering.Proofs.I18n.Same
import TemplateLowering.Proofs.Op.Translation
import TemplateLowering.Proofs.Pass.I18nContext

/-!
# Contexts of attributes

The pass keeps one table of contexts for the whole job.  The table after a view holds an entry for
every message met so far, in the order in which they were met, and an entry never changes.  So the
attributes of all views find their contexts in the table of the whole job, where messages that are
the same have one entry; and the view that first carries a message declares its context.
-/

namespace TemplateLowering

open I18n (Message)

variable {known : MessageContexts}

/-! ## Views in their contexts -/

/-- The operation with the context of its message; one without a message keeps what it has. -/
def CreateOp.withContext (contextOf : Message → Xref) : CreateOp → CreateOp
  | .extractedAttribute op =>
      .extractedAttribute
        { op with i18nContext := (op.message.map contextOf).or op.i18nContext }
  | op => op

def UpdateOp.withContext (contextOf : Message → Xref) : UpdateOp → UpdateOp
  | .binding op =>
      .binding { op with i18nContext := (op.message.map contextOf).or op.i18nContext }
  | .property op =>
      .property { op with i18nContext := (op.message.map contextOf).or op.i18nContext }
  | .attr op => .attr { op with i18nContext := (op.message.map contextOf).or op.i18nContext }
  | op => op

theorem MessageContexts.contextOf_eq {contextOf : Message → Xref} {message : Option Message}
    (context : Option Xref) (h : ∀ m, message = some m → known.find? m = some (contextOf m)) :
    known.contextOf message context = (message.map contextOf).or context := by
  cases message with
  | none => rfl
  | some message => exact h message rfl

theorem MessageContexts.assignCreate_eq {contextOf : Message → Xref} {op : CreateOp}
    (h : ∀ m, op.attributeMessage? = some m → known.find? m = some (contextOf m)) :
    known.assignCreate op = op.withContext contextOf := by
  cases op with
  | extractedAttribute op =>
    rw [assignCreate, show known.contextOf op.message _ = _ from contextOf_eq op.i18nContext h]
    rfl
  | _ => rfl

theorem MessageContexts.assignUpdate_eq {contextOf : Message → Xref} {op : UpdateOp}
    (h : ∀ m, op.attributeMessage? = some m → known.find? m = some (contextOf m)) :
    known.assignUpdate op = op.withContext contextOf := by
  cases op with
  | binding op | property op | attr op =>
    rw [assignUpdate, show known.contextOf op.message _ = _ from contextOf_eq op.i18nContext h]
    rfl
  | _ => rfl

/-- The view after its attributes got their contexts; `contexts` are declared at its end. -/
structure View.InContexts (contextOf : Message → Xref) (contexts : List I18nContextOp)
    (view view' : View) : Prop where
  frame : view' = { view with create := view'.create, update := view'.update }
  create : view'.create.Lists
    (view.create.toList.map (CreateOp.withContext contextOf) ++ contexts.map .i18nContext)
  update : view'.update.Lists (view.update.toList.map (UpdateOp.withContext contextOf))

/-- Whether some attribute of the view has the message. -/
def View.carries (message : Message) (view : View) : Bool :=
  view.attributeMessages.any fun other => other.same message

def Job.attributeMessages (job : Job) : List Message :=
  job.units.flatMap View.attributeMessages

theorem View.createAttributeContexts_spec {view view' : View} {s t : MessageContexts × Ids}
    (h : Yields view.createAttributeContexts s view' t) :
    ∃ new, new = s.1.added s.2.nextXref view.attributeMessages ∧
      t = (s.1 ++ new, { s.2 with nextXref := s.2.nextXref + new.length }) ∧
      view' = { view with
        create := (view.create.map (MessageContexts.assignCreate (s.1 ++ new))).appendAll
          (new.map fun entry => .i18nContext (MessageContexts.declaration entry))
        update := view.update.map (MessageContexts.assignUpdate (s.1 ++ new)) } := by
  simp only [View.createAttributeContexts, yields_bind, yields_pure] at h
  obtain ⟨contexts, u, hcontexts, known, v, hget, rfl, rfl⟩ := h
  obtain ⟨rfl, rfl⟩ : u.1 = known ∧ u = v := Prod.mk.inj (Except.ok.inj hget)
  obtain ⟨rfl, rfl⟩ := hcontexts.unique (yields_declareAttributeContexts _ s)
  exact ⟨_, rfl, rfl, rfl⟩

theorem MessageContexts.context?_assignCreate (known : MessageContexts) :
    CreateOp.context? ∘ known.assignCreate = CreateOp.context? := by
  funext op
  cases op <;> rfl

theorem MessageContexts.filterMap_declaration (new : MessageContexts) :
    (new.map fun entry => CreateOp.i18nContext (declaration entry)).filterMap CreateOp.context? =
      new.map declaration := by
  rw [List.filterMap_map, ← List.filterMap_eq_map]
  rfl

theorem View.contexts_of_createAttributeContexts {view view' : View}
    {s t : MessageContexts × Ids} (h : Yields view.createAttributeContexts s view' t)
    (hlinked : view.create.Linked) (hnone : view.contexts = []) :
    view'.contexts = (s.1.added s.2.nextXref view.attributeMessages).map
      MessageContexts.declaration := by
  obtain ⟨new, rfl, rfl, rfl⟩ := View.createAttributeContexts_spec h
  rw [View.contexts] at hnone
  rw [View.contexts, ((hlinked.lists.map _).appendAll _).toList, List.filterMap_append,
    List.filterMap_map, MessageContexts.context?_assignCreate, hnone, List.nil_append,
    MessageContexts.filterMap_declaration]

theorem View.exists_yields_createAttributeContexts (view : View) (s : MessageContexts × Ids) :
    ∃ view' t, Yields view.createAttributeContexts s view' t := by
  simp only [View.createAttributeContexts, yields_bind, yields_pure]
  exact ⟨_, _, _, _, yields_declareAttributeContexts _ s, _, _, rfl, rfl, rfl⟩

/-! ## The run over the views -/

section Run

variable {units units' : List View} {s t : MessageContexts × Ids}
variable (h : Threads (fun s view view' t => Yields (View.createAttributeContexts view) s view' t) s
  units units' t)
include h

theorem added_of_threads :
    t = (s.1 ++ s.1.added s.2.nextXref (units.flatMap View.attributeMessages),
      { s.2 with nextXref := s.2.nextXref +
          (s.1.added s.2.nextXref (units.flatMap View.attributeMessages)).length }) := by
  induction h with
  | nil => simp [MessageContexts.added]
  | cons hview _ ih =>
    obtain ⟨new, hnew, rfl, -⟩ := View.createAttributeContexts_spec hview
    rw [ih, List.flatMap_cons, MessageContexts.added_append, ← hnew]
    simp [Nat.add_assoc]

/-- No operation of a view is lost or moved, and those with a message get its context. -/
theorem inContexts_of_threads (hlinked : ∀ view ∈ units, view.create.Linked ∧ view.update.Linked)
    (hself : ∀ view ∈ units, ∀ message ∈ view.attributeMessages, message.same message = true)
    {contextOf : Message → Xref} (hcontextOf : ∀ view ∈ units, ∀ message ∈ view.attributeMessages,
      t.1.find? message = some (contextOf message)) :
    List.Forall₂ (fun view view' => ∃ contexts, View.InContexts contextOf contexts view view') units
      units' := by
  induction h with
  | nil => exact .nil
  | @cons s u t view view' units units' hview hrest ih =>
    rw [List.forall_mem_cons] at hlinked hself hcontextOf
    refine .cons ?_ (ih hlinked.2 hself.2 hcontextOf.2)
    obtain ⟨new, hnew, rfl, rfl⟩ := View.createAttributeContexts_spec hview
    have hknown : ∀ message ∈ view.attributeMessages,
        MessageContexts.find? (s.1 ++ new) message = some (contextOf message) := by
      intro message hmessage
      have hknows : MessageContexts.Knows (s.1 ++ new) message :=
        hnew ▸ MessageContexts.knows_added _ _ hmessage (hself.1 message hmessage)
      obtain ⟨context, hcontext⟩ := Option.isSome_iff_exists.1 hknows
      have hfind := hcontextOf.1 message hmessage
      rw [added_of_threads hrest, MessageContexts.find?_append, hcontext] at hfind
      rw [hcontext]
      exact hfind
    have hcreate : view.create.toList.map (MessageContexts.assignCreate (s.1 ++ new)) =
        view.create.toList.map (CreateOp.withContext contextOf) :=
      List.map_congr_left fun op hop => MessageContexts.assignCreate_eq fun message hmessage =>
        hknown message (List.mem_append_left _ (List.mem_filterMap.2 ⟨op, hop, hmessage⟩))
    have hupdate : view.update.toList.map (MessageContexts.assignUpdate (s.1 ++ new)) =
        view.update.toList.map (UpdateOp.withContext contextOf) :=
      List.map_congr_left fun op hop => MessageContexts.assignUpdate_eq fun message hmessage =>
        hknown message (List.mem_append_right _ (List.mem_filterMap.2 ⟨op, hop, hmessage⟩))
    refine ⟨new.map MessageContexts.declaration, rfl, ?_, ?_⟩
    · rw [← hcreate, List.map_map]
      exact (hlinked.1.1.lists.map _).appendAll _
    · rw [← hupdate]
      exact hlinked.1.2.lists.map _

theorem declared_of_threads (hlinked : ∀ view ∈ units, view.create.Linked)
    (hnone : ∀ view ∈ units, view.contexts = []) :
    units'.flatMap View.contexts =
      (s.1.added s.2.nextXref (units.flatMap View.attributeMessages)).map
        MessageContexts.declaration := by
  induction h with
  | nil => rfl
  | cons hview _ ih =>
    rw [List.forall_mem_cons] at hlinked hnone
    rw [List.flatMap_cons, List.flatMap_cons, MessageContexts.added_append, List.map_append,
      View.contexts_of_createAttributeContexts hview hlinked.1 hnone.1, ih hlinked.2 hnone.2]
    obtain ⟨new, rfl, rfl, -⟩ := View.createAttributeContexts_spec hview
    rfl

end Run

/-! ## The table of contexts -/

namespace MessageContexts

variable {n : Nat} {messages : List Message} {entry other : Message × Xref} {message : Message}

theorem exists_of_knows (h : known.Knows message) :
    ∃ entry ∈ known, entry.1.same message = true ∧ known.find? message = some entry.2 := by
  obtain ⟨context, hcontext⟩ := Option.isSome_iff_exists.1 h
  obtain ⟨entry, hfind, rfl⟩ := Option.map_eq_some_iff.1 hcontext
  exact ⟨entry, List.mem_of_find?_eq_some hfind, by simpa using List.find?_some hfind, hcontext⟩

theorem eq_of_same (hcases : ∀ message ∈ messages, message.hasDistinctCases = true)
    (hentry : entry ∈ added [] n messages) (hother : other ∈ added [] n messages)
    (hsame : entry.1.same other.1 = true) : entry = other := by
  have hpairwise : (added [] n messages).Pairwise fun entry other =>
      entry.1.same other.1 = false ∧ other.1.same entry.1 = false := by
    have hadded : List.Pairwise _ ([] ++ added [] n messages) := pairwise_added .nil
    refine hadded.imp_of_mem fun {entry other} hentry hother h => ?_
    refine ⟨h, Bool.eq_false_iff.2 fun hsame => ?_⟩
    have hflipped := Message.same_symm (hcases _ (mem_of_mem_added hother))
      (hcases _ (mem_of_mem_added hentry)) hsame
    simp [h] at hflipped
  have : Std.Symm fun entry other : Message × Xref =>
      entry.1.same other.1 = false ∧ other.1.same entry.1 = false := ⟨fun _ _ h => h.symm⟩
  by_contra hne
  have hdifferent := hpairwise.forall hentry hother hne
  simp [hsame] at hdifferent

theorem find?_eq_of_same (hcases : ∀ message ∈ messages, message.hasDistinctCases = true)
    (hentry : entry ∈ added [] n messages) (hmessage : message ∈ messages)
    (hsame : entry.1.same message = true) : find? (added [] n messages) message = some entry.2 := by
  have hdistinct := hcases message hmessage
  obtain ⟨other, hother, hsame', hfind⟩ :=
    exists_of_knows (knows_added [] n hmessage (Message.same_self hdistinct))
  rw [List.nil_append] at hother hfind
  have hflipped := Message.same_symm (hcases _ (mem_of_mem_added hentry)) hdistinct hsame
  have heq := eq_of_same hcases hother hentry
    (Message.same_trans (hcases _ (mem_of_mem_added hother)) hdistinct hsame' hflipped)
  rwa [heq] at hfind

theorem nodup_added (known : MessageContexts) (n : Nat) (messages : List Message) :
    ((known.added n messages).map Prod.snd).Nodup := by
  rw [map_snd_added]
  exact List.Nodup.map (fun _ _ h => congrArg Xref.index h) List.nodup_range'

theorem find?_eq_find?_iff (hcases : ∀ message ∈ messages, message.hasDistinctCases = true)
    {message other : Message} (hmessage : message ∈ messages) (hother : other ∈ messages) :
    find? (added [] n messages) message = find? (added [] n messages) other ↔
      message.same other = true := by
  obtain ⟨entry, hentry, hsame, hfind⟩ := exists_of_knows
    (knows_added [] n hmessage (Message.same_self (hcases message hmessage)))
  obtain ⟨entry', hentry', hsame', hfind'⟩ := exists_of_knows
    (knows_added [] n hother (Message.same_self (hcases other hother)))
  rw [List.nil_append] at hentry hfind hentry' hfind'
  have hdistinct := hcases _ (mem_of_mem_added hentry)
  constructor
  · intro heq
    rw [hfind, hfind', Option.some.injEq] at heq
    obtain rfl := List.inj_on_of_nodup_map (nodup_added _ _ _) hentry hentry' heq
    exact Message.same_of_same hdistinct (hcases message hmessage) hsame hsame'
  · intro heq
    rw [hfind, find?_eq_of_same hcases hentry hother
      (Message.same_trans hdistinct (hcases message hmessage) hsame heq)]

end MessageContexts

/-! ## The pass -/

namespace Job

variable {job : Job}

theorem run_createAttributeContexts (job : Job) :
    ∃ job' final, job.createAttributeContexts = .ok job' ∧ job.Reunited job' ∧
      Threads (fun s view view' t => Yields (View.createAttributeContexts view) s view' t)
        ([], job.ids) job.units job'.units (final, job'.ids) := by
  obtain ⟨job', final, hrun, hthreads, hreunited⟩ : ∃ job' final,
      job.runContextPass [] View.createAttributeContexts = .ok (job', final) ∧
      Threads (fun s view view' t => Yields (View.createAttributeContexts view) s view' t)
        ([], job.ids) job.units job'.units (final, job'.ids) ∧ job.Reunited job' :=
    invariant_runContextPass (I := fun _ => True) (fun view _ s _ => by
      obtain ⟨view', t, hyields⟩ := view.exists_yields_createAttributeContexts s
      exact ⟨view', t, hyields, hyields, trivial⟩) trivial
  refine ⟨job', final, ?_, hreunited, hthreads⟩
  rw [createAttributeContexts, hrun]
  rfl

theorem findIdx_carries {before after units' : List View} {view : View}
    {u : MessageContexts × Ids} {message : Message} {entry : Message × Xref}
    (hbefore : Threads (fun s view view' t => Yields (View.createAttributeContexts view) s view' t)
      ([], job.ids) before units' u) (hunits : job.units = before ++ view :: after)
    (hcases : ∀ message ∈ job.attributeMessages, message.hasDistinctCases = true)
    (hmessage : message ∈ job.attributeMessages)
    (hentry : entry ∈ u.1.added u.2.nextXref view.attributeMessages)
    (hsame : entry.1.same message = true) :
    job.units.findIdx (View.carries message) = before.length := by
  obtain rfl := added_of_threads hbefore
  have hunit : ∀ unit ∈ before ++ [view], ∀ other ∈ unit.attributeMessages,
      other.hasDistinctCases = true := by
    intro unit hunit other hother
    refine hcases other (List.mem_flatMap.2 ⟨unit, ?_, hother⟩)
    rw [hunits, List.append_cons]
    exact List.mem_append_left _ hunit
  have hfirst : before.findIdx (View.carries message) = before.length := by
    rw [List.findIdx_eq_length]
    intro earlier hearlier
    rw [Bool.eq_false_iff]
    intro hcarries
    obtain ⟨other, hother, hsame'⟩ := List.any_eq_true.1 hcarries
    have hother' := hunit earlier (List.mem_append_left _ hearlier) other hother
    -- The table knows the message already, so that the view does not declare it again.
    obtain ⟨known, hknown, hsame'', -⟩ := MessageContexts.exists_of_knows
      (MessageContexts.knows_added [] job.ids.nextXref
        (List.mem_flatMap.2 ⟨earlier, hearlier, hother⟩) (Message.same_self hother'))
    rw [List.nil_append] at hknown
    have hdifferent := (List.pairwise_append.1
      (MessageContexts.pairwise_added (MessageContexts.pairwise_added .nil))).2.2 known hknown
        entry hentry
    have hentry' := hunit view (by simp) _ (MessageContexts.mem_of_mem_added hentry)
    obtain ⟨unit, hunit', hknown'⟩ :=
      List.mem_flatMap.1 (MessageContexts.mem_of_mem_added hknown)
    have hknown' := hunit unit (List.mem_append_left _ hunit') _ hknown'
    have hother := Message.same_trans hknown' hother' hsame'' hsame'
    have hback := Message.same_symm hentry' (hcases message hmessage) hsame
    rw [Message.same_trans hknown' (hcases message hmessage) hother hback] at hdifferent
    cases hdifferent
  have hview : View.carries message view = true :=
    List.any_eq_true.2 ⟨entry.1, MessageContexts.mem_of_mem_added hentry, hsame⟩
  rw [hunits, List.findIdx_append, hfirst, if_neg (Nat.lt_irrefl _), List.findIdx_cons, hview]
  simp

/-- The context of a message, in the table of the whole job. -/
def contextOf (job : Job) (message : Message) : Xref :=
  (MessageContexts.find? (.added [] job.ids.nextXref job.attributeMessages) message).getD default

theorem exists_entry (hcases : ∀ message ∈ job.attributeMessages, message.hasDistinctCases = true)
    {message : Message} (hmessage : message ∈ job.attributeMessages) :
    ∃ entry ∈ MessageContexts.added [] job.ids.nextXref job.attributeMessages,
      entry.1.same message = true ∧
      MessageContexts.find? (.added [] job.ids.nextXref job.attributeMessages) message =
        some (job.contextOf message) ∧ entry.2 = job.contextOf message := by
  obtain ⟨entry, hentry, hsame, hfind⟩ := MessageContexts.exists_of_knows
    (MessageContexts.knows_added [] job.ids.nextXref hmessage
      (Message.same_self (hcases message hmessage)))
  rw [List.nil_append] at hentry hfind
  have hcontext : entry.2 = job.contextOf message := by rw [contextOf, hfind, Option.getD_some]
  exact ⟨entry, hentry, hsame, hcontext ▸ hfind, hcontext⟩

theorem contextOf_eq_iff
    (hcases : ∀ message ∈ job.attributeMessages, message.hasDistinctCases = true)
    {message other : Message} (hmessage : message ∈ job.attributeMessages)
    (hother : other ∈ job.attributeMessages) :
    job.contextOf message = job.contextOf other ↔ message.same other = true := by
  obtain ⟨-, -, -, hfind, -⟩ := exists_entry hcases hmessage
  obtain ⟨-, -, -, hfind', -⟩ := exists_entry hcases hother
  rw [← MessageContexts.find?_eq_find?_iff (n := job.ids.nextXref) hcases hmessage hother, hfind,
    hfind', Option.some.injEq]

/-- Every attribute with a message has the context of its message, and nothing else changes but that
the contexts are declared.  Attributes of any two views have the same context exactly when their
messages are the same.  Each context is declared once, for attributes, in the first view that
carries its message, and no others are declared. -/
theorem createAttributeContexts_shares
    (hlinked : ∀ view ∈ job.units, view.create.Linked ∧ view.update.Linked)
    (hcases : ∀ message ∈ job.attributeMessages, message.hasDistinctCases = true)
    (hnone : job.contexts = []) :
    ∃ job' contextOf, job.createAttributeContexts = .ok job' ∧ job.Reunited job' ∧
      List.Forall₂ (fun view view' => ∃ contexts, View.InContexts contextOf contexts view view')
        job.units job'.units ∧
      (∀ message ∈ job.attributeMessages, ∀ other ∈ job.attributeMessages,
        (contextOf message = contextOf other ↔ message.same other = true)) ∧
      (∀ context ∈ job'.contexts, ∃ message ∈ job.attributeMessages,
        context.xref = contextOf message) ∧
      ∀ message ∈ job.attributeMessages, ∃ context view',
        job'.DeclaresOnce context ∧ context.xref = contextOf message ∧ context.kind = .attr ∧
        context.block = none ∧ context.message.same message = true ∧
        job'.units[job.units.findIdx (View.carries message)]? = some view' ∧
        .i18nContext context ∈ view'.create.toList := by
  obtain ⟨job', final, hrun, hreunited, hthreads⟩ := job.run_createAttributeContexts
  have hviews : ∀ view ∈ job.units, view.contexts = [] := List.flatMap_eq_nil_iff.1 hnone
  have hmem : ∀ view ∈ job.units, ∀ message ∈ view.attributeMessages,
      message ∈ job.attributeMessages :=
    fun view hview message hmessage => List.mem_flatMap.2 ⟨view, hview, hmessage⟩
  have hcontexts : job'.contexts =
      (MessageContexts.added [] job.ids.nextXref job.attributeMessages).map
        MessageContexts.declaration :=
    declared_of_threads hthreads (fun view hview => (hlinked view hview).1) hviews
  refine ⟨job', job.contextOf, hrun, hreunited, ?_,
    fun message hmessage other hother => contextOf_eq_iff hcases hmessage hother, ?_, ?_⟩
  · refine inContexts_of_threads hthreads hlinked (fun view hview message hmessage =>
      Message.same_self (hcases message (hmem view hview message hmessage))) ?_
    intro view hview message hmessage
    obtain ⟨-, -, -, hfind, -⟩ := exists_entry hcases (hmem view hview message hmessage)
    rw [added_of_threads hthreads]
    exact hfind
  · intro context hcontext
    rw [hcontexts] at hcontext
    obtain ⟨entry, hentry, rfl⟩ := List.mem_map.1 hcontext
    have hmessage := MessageContexts.mem_of_mem_added hentry
    have hfind := MessageContexts.find?_eq_of_same hcases hentry hmessage
      (Message.same_self (hcases _ hmessage))
    refine ⟨entry.1, hmessage, ?_⟩
    rw [contextOf, hfind]
    rfl
  · intro message hmessage
    obtain ⟨entry, hentry, hsame, -, hcontext⟩ := exists_entry hcases hmessage
    have hdeclared : MessageContexts.declaration entry ∈ job'.contexts :=
      hcontexts ▸ List.mem_map_of_mem hentry
    have hxrefs : (job'.contexts.map I18nContextOp.xref).Nodup := by
      rw [hcontexts, List.map_map]
      exact MessageContexts.nodup_added _ _ _
    obtain ⟨view', hview', hmem'⟩ := List.mem_flatMap.1 hdeclared
    refine ⟨_, view', declaresOnce hxrefs hdeclared, hcontext, rfl, rfl, hsame, ?_,
      View.mem_contexts.1 hmem'⟩
    obtain ⟨front, back, hunits'⟩ := List.append_of_mem hview'
    obtain ⟨before, view, after, u, v, hunits, hlength, hbefore, hyields, -⟩ :=
      hthreads.split hunits'
    have hview : view ∈ job.units := by simp [hunits]
    rw [View.contexts_of_createAttributeContexts hyields (hlinked view hview).1
      (hviews view hview)] at hmem'
    obtain ⟨other, hother, heq⟩ := List.mem_map.1 hmem'
    have hmessage' : other.1 = entry.1 := congrArg I18nContextOp.message heq
    rw [findIdx_carries hbefore hunits hcases hmessage hother (hmessage' ▸ hsame), hlength, hunits']
    simp

end Job

/-- The message `{n, plural, one {row} other {rows}}`, with its cases in the given order. -/
def pluralMessage (cases : List String) : Message :=
  { nodes := [.icu ⟨"n", "plural", cases.map fun name => ⟨name, .text name default⟩, default, none⟩] }

/-- A component with a message in two views, which list its cases in different orders, and with a
second message. -/
def pluralTitles : Job :=
  let title (message : Message) : CreateOp :=
    .extractedAttribute
      { target := ⟨0⟩, kind := .attr, name := "title", message := some message, security := [] }
  { kind := .template
    component := "Cmp"
    options := {}
    root := ViewIds.view ⟨⟨0⟩, ⟨0⟩, ⟨1⟩⟩ none
      [title (pluralMessage ["one", "other"]), title { id := "page" }] []
    views := [ViewIds.view ⟨⟨1⟩, ⟨2⟩, ⟨3⟩⟩ (some ⟨0⟩) [title (pluralMessage ["other", "one"])] []]
    ids := { nextXref := 2, nextList := 4 } }

theorem createAttributeContexts_shares_plural :
    ∃ job' contextOf, ∃ c d : Xref, pluralTitles.createAttributeContexts = .ok job' ∧
      pluralTitles.attributeMessages.map contextOf = [c, d, c] ∧ c ≠ d ∧
      job'.contexts.length = 2 := by
  have hmessages : pluralTitles.attributeMessages =
      [pluralMessage ["one", "other"], { id := "page" }, pluralMessage ["other", "one"]] := rfl
  have hlinked : ∀ view ∈ pluralTitles.units, view.create.Linked ∧ view.update.Linked := by
    have hview : ∀ (ids : ViewIds) parent create update,
        (ids.view parent create update).create.Linked ∧
          (ids.view parent create update).update.Linked :=
      fun ids _ _ _ => ⟨(OpList.lists_ofList ids.createList _).linked,
        (OpList.lists_ofList ids.updateList _).linked⟩
    simp [pluralTitles, Job.units, hview]
  have hcases : ∀ message ∈ pluralTitles.attributeMessages, message.hasDistinctCases = true := by
    rw [hmessages]
    decide +kernel
  obtain ⟨job', contextOf, hrun, -, -, hshared, -, -⟩ :=
    Job.createAttributeContexts_shares hlinked hcases rfl
  rw [hmessages] at hshared ⊢
  have hsame := (hshared (pluralMessage ["one", "other"]) (by simp)
    (pluralMessage ["other", "one"]) (by simp)).2 (by decide +kernel)
  have hdifferent := (hshared (pluralMessage ["one", "other"]) (by simp) { id := "page" }
    (by simp)).not.2 (by decide +kernel)
  have hcount : (pluralTitles.createAttributeContexts.toOption.map fun job' =>
      job'.contexts.length) = some 2 := by decide +kernel
  rw [hrun] at hcount
  refine ⟨job', contextOf, _, _, hrun, ?_, hdifferent, Option.some.inj hcount⟩
  rw [List.map_cons, List.map_cons, List.map_cons, ← hsame]
  rfl

end TemplateLowering
