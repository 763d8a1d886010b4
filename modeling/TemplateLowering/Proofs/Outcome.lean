import Mathlib.Tactic

/-!
# Outcomes of computations

Lowering, the edits of a list and the passes over a job run in different monads, but all of them
take a state to a result and a new state, or fail.  `Stateful.outcome` reads a computation that way,
and `Yields x s a s'` says that it succeeds.  The equivalences below open a computation step by
step, so that later proofs never unfold a monad.
-/

namespace TemplateLowering

/-- A monad whose computations take a state to a result and a state, or fail. -/
class Stateful (m : Type → Type) [Monad m] (σ ε : outParam Type) where
  outcome {α : Type} : m α → σ → Except ε (α × σ)
  outcome_pure {α : Type} (a : α) (s : σ) : outcome (pure a) s = .ok (a, s)
  outcome_bind {α β : Type} (x : m α) (f : α → m β) (s : σ) :
    outcome (x >>= f) s = outcome x s >>= fun result => outcome (f result.1) result.2

export Stateful (outcome)

section Laws

variable {m : Type → Type} [Monad m] {σ ε α β : Type} [Stateful m σ ε] {s t u : σ} {a : α} {b : β}
  {x : m α} {f : α → m β} {e : ε}

/-- From the state `s`, a computation succeeds with the result `a` in the state `s'`. -/
def Yields (x : m α) (s : σ) (a : α) (s' : σ) : Prop :=
  outcome x s = .ok (a, s')

theorem Yields.unique {b : α} (ha : Yields x s a t) (hb : Yields x s b u) : a = b ∧ t = u := by
  unfold Yields at ha hb
  rw [ha] at hb
  simpa using hb

theorem yields_pure {b : α} : Yields (pure a : m α) s b t ↔ a = b ∧ s = t := by
  unfold Yields
  rw [Stateful.outcome_pure]
  simp

theorem yields_bind : Yields (x >>= f) s b u ↔ ∃ a t, Yields x s a t ∧ Yields (f a) t b u := by
  unfold Yields
  rw [Stateful.outcome_bind]
  cases hx : outcome x s with
  | error e => simp [bind, Except.bind]
  | ok result =>
      obtain ⟨a, t⟩ := result
      simp [bind, Except.bind]

theorem yields_map [LawfulMonad m] {f : α → β} :
    Yields (f <$> x) s b t ↔ ∃ a, Yields x s a t ∧ f a = b := by
  rw [← bind_pure_comp, yields_bind]
  constructor
  · rintro ⟨a, u, hx, hf⟩
    obtain ⟨rfl, rfl⟩ := yields_pure.1 hf
    exact ⟨a, hx, rfl⟩
  · rintro ⟨a, hx, rfl⟩
    exact ⟨a, t, hx, yields_pure.2 ⟨rfl, rfl⟩⟩

theorem outcome_bind_eq_error :
    outcome (x >>= f) s = .error e ↔
      outcome x s = .error e ∨ ∃ a t, Yields x s a t ∧ outcome (f a) t = .error e := by
  unfold Yields
  rw [Stateful.outcome_bind]
  cases hx : outcome x s with
  | error e => simp [bind, Except.bind]
  | ok result =>
      obtain ⟨a, t⟩ := result
      simp [bind, Except.bind]

theorem outcome_pure_ne_error : outcome (pure a : m α) s ≠ .error e := by
  rw [Stateful.outcome_pure]
  simp

theorem yields_ite {c : Prop} [Decidable c] {y : m α} :
    Yields (if c then x else y) s a t ↔ c ∧ Yields x s a t ∨ ¬c ∧ Yields y s a t := by
  split_ifs with hc <;> simp [hc]

theorem outcome_map_eq_error [LawfulMonad m] {f : α → β} :
    outcome (f <$> x) s = .error e ↔ outcome x s = .error e := by
  rw [← bind_pure_comp, outcome_bind_eq_error]
  simp [outcome_pure_ne_error]

end Laws

/-! ## The monads in use -/

section Instances

variable {σ τ ε α β : Type} {s t : σ} {a : α} {e : ε}

instance : Stateful Id Unit Empty where
  outcome x s := .ok (x.run, s)
  outcome_pure _ _ := rfl
  outcome_bind _ _ _ := rfl

instance : Stateful (Except ε) Unit ε where
  outcome x s := x.map fun a => (a, s)
  outcome_pure _ _ := rfl
  outcome_bind x _ _ := by cases x <;> rfl

instance : Stateful (StateT σ Id) σ Empty where
  outcome x s := .ok (x.run s).run
  outcome_pure _ _ := rfl
  outcome_bind _ _ _ := rfl

instance : Stateful (StateT σ (Except ε)) σ ε where
  outcome x s := x.run s
  outcome_pure _ _ := rfl
  outcome_bind _ _ _ := rfl

instance : Stateful (ExceptT ε (StateM σ)) σ ε where
  outcome x s :=
    match x.run.run s with
    | (.ok a, s) => .ok (a, s)
    | (.error e, _) => .error e
  outcome_pure _ _ := rfl
  outcome_bind x f s := by
    have hbind :
        (x >>= f).run.run s =
          (match x.run.run s with
            | (.ok a, t) => (f a).run.run t
            | (.error e, t) => (.error e, t)) := by
      simp only [ExceptT.run_bind, StateT.run_bind]
      rcases x.run.run s with ⟨a | e, t⟩ <;> rfl
    rw [hbind]
    rcases x.run.run s with ⟨a | e, t⟩ <;> rfl

instance : Stateful (StateT σ (StateT τ (Except ε))) (σ × τ) ε where
  outcome x s := ((x.run s.1).run s.2).map fun result => (result.1.1, (result.1.2, result.2))
  outcome_pure _ _ := rfl
  outcome_bind x f s := by
    simp only [StateT.run_bind]
    rcases (x.run s.1).run s.2 with e | ⟨⟨a, t⟩, u⟩ <;> rfl

theorem yields_except {x : Except ε α} {s t : Unit} : Yields x s a t ↔ x = .ok a := by
  cases x <;> simp [Yields, outcome, Except.map]

theorem outcome_except {x : Except ε α} {s : Unit} : outcome x s = .error e ↔ x = .error e := by
  cases x <;> simp [outcome, Except.map]

theorem yields_id {x : Id α} {s t : Unit} : Yields x s a t ↔ x.run = a := by
  simp [Yields, outcome]

theorem yields_stateM {x : StateM σ α} : Yields x s a t ↔ x.run s = (a, t) := by
  constructor
  · intro h
    exact Except.ok.inj h
  · intro h
    exact congrArg Except.ok h

theorem outcome_exceptT {x : ExceptT ε (StateM σ) α} :
    outcome x s = match (x.run.run s).run with
      | (.ok a, s) => .ok (a, s)
      | (.error e, _) => .error e :=
  rfl

theorem yields_edit_get {a : σ} : Yields (get : ExceptT ε (StateM σ) σ) s a t ↔ s = a ∧ s = t := by
  unfold Yields
  constructor
  · intro h
    exact Prod.mk.inj (Except.ok.inj h)
  · rintro ⟨rfl, rfl⟩
    rfl

theorem yields_edit_set {u : σ} {a : PUnit} :
    Yields (set u : ExceptT ε (StateM σ) PUnit) s a t ↔ u = t := by
  unfold Yields
  constructor
  · intro h
    exact congrArg Prod.snd (Except.ok.inj h)
  · rintro rfl
    rfl

theorem yields_edit_modify {f : σ → σ} {a : PUnit} :
    Yields (modify f : ExceptT ε (StateM σ) PUnit) s a t ↔ f s = t := by
  unfold Yields
  constructor
  · intro h
    exact congrArg Prod.snd (Except.ok.inj h)
  · rintro rfl
    rfl

theorem not_yields_throw : ¬Yields (throw e : ExceptT ε (StateM σ) α) s a t := by
  intro h
  exact nomatch h

theorem not_yields_throw_context {s t : σ × τ} :
    ¬Yields (throw e : StateT σ (StateT τ (Except ε)) α) s a t := by
  intro h
  exact nomatch h

theorem yields_stateT {x : StateT σ (Except ε) α} : Yields x s a t ↔ x.run s = .ok (a, t) := by
  rfl

theorem yields_context {x : StateT σ (StateT τ (Except ε)) α} {s t : σ × τ} :
    Yields x s a t ↔ (x.run s.1).run s.2 = .ok ((a, t.1), t.2) := by
  change Except.map _ ((x.run s.1).run s.2) = _ ↔ _
  cases (x.run s.1).run s.2 with
  | error e => simp [Except.map]
  | ok result => simp [Except.map, Prod.ext_iff, and_assoc]

theorem yields_lift {x : Except ε α} :
    Yields (liftM x : StateT σ (Except ε) α) s a t ↔ x = .ok a ∧ s = t := by
  cases x with
  | error e =>
    constructor
    · intro h
      exact nomatch h
    · intro h
      exact nomatch h.1
  | ok b =>
    change Except.ok (b, s) = .ok (a, t) ↔ _
    simp

theorem outcome_lift {x : Except ε α} :
    outcome (liftM x : StateT σ (Except ε) α) s = .error e ↔ x = .error e := by
  cases x with
  | error e' =>
    change Except.error e' = .error e ↔ _
    simp
  | ok b =>
    change Except.ok (b, s) = .error e ↔ _
    simp

theorem yields_lift_context {x : Except ε α} {s t : σ × τ} :
    Yields (liftM x : StateT σ (StateT τ (Except ε)) α) s a t ↔ x = .ok a ∧ s = t := by
  cases x with
  | error e =>
    constructor
    · intro h
      exact nomatch h
    · intro h
      exact nomatch h.1
  | ok b =>
    change Except.ok (b, s) = .ok (a, t) ↔ _
    simp

end Instances

/-! ## Traversals of lists -/

section Traversal

variable {m : Type → Type} [Monad m] [LawfulMonad m] {σ ε α β γ : Type} [Stateful m σ ε]

/-- Two lists correspond step by step, while a state is passed along. -/
inductive Threads (R : σ → α → β → σ → Prop) : σ → List α → List β → σ → Prop
  | nil {s : σ} : Threads R s [] [] s
  | cons {s t u : σ} {a : α} {b : β} {as : List α} {bs : List β} :
      R s a b t → Threads R t as bs u → Threads R s (a :: as) (b :: bs) u

variable {R S : σ → α → β → σ → Prop} {K : σ → γ → Prop} {s t : σ} {as : List α} {bs : List β}

theorem Threads.forall₂ {S : α → β → Prop} (h : Threads R s as bs t)
    (hRS : ∀ s a b t, a ∈ as → R s a b t → S a b) : List.Forall₂ S as bs := by
  induction h with
  | nil => exact .nil
  | cons hR _ ih =>
      refine .cons (hRS _ _ _ _ (by simp) hR) (ih ?_)
      intro s a b t ha
      exact hRS s a b t (by simp [ha])

theorem Threads.of_map {f : α → β} (h : ∀ a ∈ as, R s a (f a) s) : Threads R s as (as.map f) s := by
  induction as with
  | nil => exact .nil
  | cons a as ih => exact .cons (h a (by simp)) (ih fun b hb => h b (by simp [hb]))

theorem Threads.stays (h : Threads R s as bs t)
    (hstays : ∀ s a b t, R s a b t → ∀ key, K s key → K t key) {key : γ} (hkey : K s key) : K t key := by
  induction h with
  | nil => exact hkey
  | cons hR _ ih => exact ih (hstays _ _ _ _ hR key hkey)

/-- A traversal of a list is one of the elements before some element, of the element itself, and of
those after it. -/
theorem Threads.split {front back : List β} {b : β} (h : Threads R s as bs t)
    (hbs : bs = front ++ b :: back) :
    ∃ before a after u v, as = before ++ a :: after ∧ before.length = front.length ∧
      Threads R s before front u ∧ R u a b v ∧ Threads R v after back t := by
  induction h generalizing front with
  | nil => simp at hbs
  | @cons s u t a b' as bs hR hrest ih =>
    cases front with
    | nil =>
      obtain ⟨rfl, rfl⟩ := List.cons.inj hbs
      exact ⟨[], a, as, s, u, rfl, rfl, .nil, hR, hrest⟩
    | cons c front =>
      obtain ⟨rfl, hrest'⟩ := List.cons.inj hbs
      obtain ⟨before, a', after, v, w, rfl, hlength, hbefore, hR', hafter⟩ := ih hrest'
      exact ⟨a :: before, a', after, v, w, rfl, congrArg (· + 1) hlength, .cons hR hbefore, hR',
        hafter⟩

theorem Threads.exists_of_mem {b : β} (h : Threads R s as bs t) (hb : b ∈ bs) :
    ∃ a ∈ as, ∃ s t, R s a b t := by
  obtain ⟨front, back, hbs⟩ := List.append_of_mem hb
  obtain ⟨before, a, after, u, v, rfl, -, -, hR, -⟩ := h.split hbs
  exact ⟨a, by simp, u, v, hR⟩

theorem Threads.exists_of_mem_stays {b : β} (h : Threads R s as bs t)
    (hstays : ∀ s a b t, R s a b t → ∀ key, K s key → K t key)
    (hb : b ∈ bs) : ∃ a ∈ as, ∃ u v, R u a b v ∧ ∀ key, K v key → K t key := by
  obtain ⟨front, back, hbs⟩ := List.append_of_mem hb
  obtain ⟨before, a, after, u, v, rfl, -, -, hR, hafter⟩ := h.split hbs
  exact ⟨a, by simp, u, v, hR, fun _ hkey => hafter.stays hstays hkey⟩

theorem Threads.known {L : β → γ → Prop} (h : Threads R s as bs t)
    (hstays : ∀ s a b t, R s a b t → ∀ key, K s key → K t key)
    (hlearnt : ∀ s a b t, R s a b t → ∀ key, L b key → K t key) :
    ∀ b ∈ bs, ∀ key, L b key → K t key := by
  intro b hb key hkey
  obtain ⟨a, -, u, v, hR, hend⟩ := h.exists_of_mem_stays hstays hb
  exact hend key (hlearnt u a b v hR key hkey)

theorem Threads.learnt {L : β → γ → Prop} (h : Threads R s as bs t)
    (hlearnt : ∀ s a b t, R s a b t → ∀ key, K t key → K s key ∨ L b key) {key : γ}
    (hkey : K t key) : K s key ∨ ∃ b ∈ bs, L b key := by
  induction h with
  | nil => exact .inl hkey
  | cons hR _ ih =>
      rcases ih hkey with hknown | ⟨b, hb, hL⟩
      · rcases hlearnt _ _ _ _ hR key hknown with hknown | hL
        · exact .inl hknown
        · exact .inr ⟨_, List.mem_cons_self, hL⟩
      · exact .inr ⟨b, List.mem_cons_of_mem _ hb, hL⟩

theorem Threads.invariant {I : σ → Prop} (h : Threads R s as bs t)
    (hR : ∀ s a b t, a ∈ as → I s → R s a b t → S s a b t ∧ I t) (hs : I s) :
    Threads S s as bs t ∧ I t := by
  induction h with
  | nil => exact ⟨.nil, hs⟩
  | cons hab _ ih =>
      obtain ⟨hS, ht⟩ := hR _ _ _ _ List.mem_cons_self hs hab
      obtain ⟨hrest, hu⟩ := ih (fun s a b t ha => hR s a b t (List.mem_cons_of_mem _ ha)) ht
      exact ⟨.cons hS hrest, hu⟩

theorem Threads.imp (h : Threads R s as bs t) (hRS : ∀ s a b t, a ∈ as → R s a b t → S s a b t) :
    Threads S s as bs t :=
  (h.invariant (I := fun _ => True) (fun s a b t ha _ hR => ⟨hRS s a b t ha hR, trivial⟩) trivial).1

section Keys

variable {κ δ : Type} {keys : α → List κ} (look : σ → κ → δ)

theorem Threads.look_eq (h : Threads R s as bs t)
    (hR : ∀ s a b t, R s a b t → ∀ key ∉ keys a, look t key = look s key) {key : κ}
    (hkey : key ∉ as.flatMap keys) : look t key = look s key := by
  induction h with
  | nil => rfl
  | cons hab _ ih =>
      rw [List.flatMap_cons, List.mem_append, not_or] at hkey
      rw [ih hkey.2, hR _ _ _ _ hab key hkey.1]

theorem Threads.look_eq_of_nodup (h : Threads R s as bs t)
    (hR : ∀ s a b t, R s a b t → ∀ key ∉ keys a, look t key = look s key)
    (hnodup : (as.flatMap keys).Nodup) {b : β} (hb : b ∈ bs) :
    ∃ a ∈ as, ∃ u v, R u a b v ∧ ∀ key ∈ keys a, look t key = look v key := by
  induction h with
  | nil => simp at hb
  | @cons s v t a b' as bs hab hrest ih =>
      rw [List.flatMap_cons, List.nodup_append] at hnodup
      rcases List.mem_cons.1 hb with rfl | hb
      · refine ⟨a, List.mem_cons_self, s, v, hab, ?_⟩
        intro key hkey
        exact hrest.look_eq look hR fun hmem => hnodup.2.2 key hkey key hmem rfl
      · obtain ⟨a', ha', hspec⟩ := ih hnodup.2.1 hb
        exact ⟨a', List.mem_cons_of_mem _ ha', hspec⟩

end Keys

theorem Threads.length_eq (h : Threads R s as bs t) : bs.length = as.length := by
  induction h with
  | nil => rfl
  | cons _ _ ih => simp [ih]

theorem yields_mapM {f : α → m β} :
    Yields (as.mapM f) s bs t ↔ Threads (fun s a b t => Yields (f a) s b t) s as bs t := by
  induction as generalizing s bs with
  | nil =>
      rw [List.mapM_nil, yields_pure]
      constructor
      · rintro ⟨rfl, rfl⟩
        exact .nil
      · rintro ⟨⟩
        exact ⟨rfl, rfl⟩
  | cons a as ih =>
      simp only [List.mapM_cons, yields_bind, yields_pure]
      constructor
      · rintro ⟨b, u, hb, bs, v, hbs, rfl, rfl⟩
        exact .cons hb (ih.1 hbs)
      · rintro (_ | ⟨hb, hbs⟩)
        exact ⟨_, _, hb, _, t, ih.2 hbs, rfl, rfl⟩

/-- A traversal succeeds when every element succeeds from the states with `I`, which it keeps. -/
theorem invariant_mapM {f : α → m β} {I : σ → Prop}
    (h : ∀ a ∈ as, ∀ s, I s → ∃ b t, Yields (f a) s b t ∧ R s a b t ∧ I t) (hs : I s) :
    ∃ bs t, Yields (as.mapM f) s bs t ∧ Threads R s as bs t ∧ I t := by
  induction as generalizing s with
  | nil => exact ⟨[], s, yields_mapM.2 .nil, .nil, hs⟩
  | cons a as ih =>
      obtain ⟨b, t, hb, hR, ht⟩ := h a (by simp) s hs
      obtain ⟨bs, u, hbs, hthreads, hu⟩ := ih (fun a ha => h a (by simp [ha])) ht
      exact ⟨b :: bs, u, yields_mapM.2 (.cons hb (yields_mapM.1 hbs)), .cons hR hthreads, hu⟩

theorem total_mapM {f : α → m β} (h : ∀ a ∈ as, ∀ s, ∃ b t, Yields (f a) s b t ∧ R s a b t) (s : σ) :
    ∃ bs t, Yields (as.mapM f) s bs t ∧ Threads R s as bs t := by
  have hinvariant : ∀ a ∈ as, ∀ s, True → ∃ b t, Yields (f a) s b t ∧ R s a b t ∧ True := by
    intro a ha s _
    obtain ⟨b, t, hb, hR⟩ := h a ha s
    exact ⟨b, t, hb, hR, trivial⟩
  obtain ⟨bs, t, hbs, hthreads, -⟩ := invariant_mapM hinvariant (s := s) trivial
  exact ⟨bs, t, hbs, hthreads⟩

theorem outcome_mapM_eq_error {f : α → m β} {e : ε} :
    outcome (as.mapM f) s = .error e ↔
      ∃ before a after bs t, as = before ++ a :: after ∧
        Threads (fun s a b t => Yields (f a) s b t) s before bs t ∧
        outcome (f a) t = .error e := by
  induction as generalizing s with
  | nil =>
      rw [List.mapM_nil]
      constructor
      · intro h
        exact absurd h outcome_pure_ne_error
      · rintro ⟨before, a, after, bs, t, has, -⟩
        simp at has
  | cons a as ih =>
      rw [List.mapM_cons, outcome_bind_eq_error]
      constructor
      · rintro (ha | ⟨b, t, hb, hrest⟩)
        · exact ⟨[], a, as, [], s, rfl, .nil, ha⟩
        · rw [outcome_bind_eq_error] at hrest
          rcases hrest with hrest | ⟨bs, u, -, hpure⟩
          · obtain ⟨before, a', after, bs, u, rfl, hbefore, ha'⟩ := ih.1 hrest
            exact ⟨a :: before, a', after, b :: bs, u, rfl, .cons hb hbefore, ha'⟩
          · exact absurd hpure outcome_pure_ne_error
      · rintro ⟨before, a', after, bs, t, has, hbefore, ha'⟩
        cases hbefore with
        | nil =>
            simp only [List.nil_append, List.cons.injEq] at has
            obtain ⟨rfl, rfl⟩ := has
            exact .inl ha'
        | @cons _ u _ x b before bs hb hbefore =>
            simp only [List.cons_append, List.cons.injEq] at has
            obtain ⟨rfl, rfl⟩ := has
            refine .inr ⟨b, u, hb, ?_⟩
            rw [outcome_bind_eq_error]
            exact .inl (ih.2 ⟨before, a', after, bs, t, rfl, hbefore, ha'⟩)

theorem mapM_fails {F : ε → Prop} {bad : α → Prop} {f : α → m β}
    (hbad : ∀ a ∈ as, bad a → ∀ s, ∃ e, F e ∧ outcome (f a) s = .error e)
    (hgood : ∀ a ∈ as, ¬bad a → ∀ s, ∃ b t, Yields (f a) s b t)
    (hexists : ∃ a ∈ as, bad a) (s : σ) :
    ∃ e, F e ∧ outcome (as.mapM f) s = .error e := by
  induction as generalizing s with
  | nil => simp at hexists
  | cons a as ih =>
      simp only [List.mapM_cons, outcome_bind_eq_error]
      by_cases ha : bad a
      · obtain ⟨e, he, herror⟩ := hbad a (by simp) ha s
        exact ⟨e, he, .inl herror⟩
      · obtain ⟨b, t, hb⟩ := hgood a (by simp) ha s
        have hrest : ∃ a ∈ as, bad a := by
          obtain ⟨a', hmem, ha'⟩ := hexists
          rcases List.mem_cons.1 hmem with rfl | hmem
          · exact absurd ha' ha
          · exact ⟨a', hmem, ha'⟩
        obtain ⟨e, he, herror⟩ :=
          ih (fun a ha => hbad a (by simp [ha])) (fun a ha => hgood a (by simp [ha])) hrest t
        exact ⟨e, he, .inr ⟨b, t, hb, .inl herror⟩⟩

/-! Traversals that only may fail. -/

theorem except_mapM_total {f : α → Except ε β} {R : α → β → Prop}
    (h : ∀ a ∈ as, ∃ b, f a = .ok b ∧ R a b) : ∃ bs, as.mapM f = .ok bs ∧ List.Forall₂ R as bs := by
  have htotal : ∀ a ∈ as, ∀ _ : Unit, ∃ b t, Yields (f a) () b t ∧ R a b := by
    intro a ha _
    obtain ⟨b, hb, hR⟩ := h a ha
    exact ⟨b, (), yields_except.2 hb, hR⟩
  obtain ⟨bs, _, hbs, hthreads⟩ := total_mapM htotal ()
  exact ⟨bs, yields_except.1 hbs, hthreads.forall₂ fun _ _ _ _ _ hR => hR⟩

theorem except_mapM_fails {F : ε → Prop} {bad : α → Prop} {f : α → Except ε β}
    (hbad : ∀ a ∈ as, bad a → ∃ e, F e ∧ f a = .error e)
    (hgood : ∀ a ∈ as, ¬bad a → ∃ b, f a = .ok b) (hexists : ∃ a ∈ as, bad a) :
    ∃ e, F e ∧ as.mapM f = .error e := by
  have hfails : ∀ a ∈ as, bad a → ∀ _ : Unit, ∃ e, F e ∧ outcome (f a) () = .error e := by
    intro a ha hbad' _
    obtain ⟨e, he, herror⟩ := hbad a ha hbad'
    exact ⟨e, he, outcome_except.2 herror⟩
  have hyields : ∀ a ∈ as, ¬bad a → ∀ _ : Unit, ∃ b t, Yields (f a) () b t := by
    intro a ha hgood' _
    obtain ⟨b, hb⟩ := hgood a ha hgood'
    exact ⟨b, (), yields_except.2 hb⟩
  obtain ⟨e, he, herror⟩ := mapM_fails hfails hyields hexists ()
  exact ⟨e, he, outcome_except.1 herror⟩

theorem flatMap_eq_of_forall₂ {R : α → β → Prop} {f : α → List γ} {g : β → List γ}
    (h : List.Forall₂ R as bs) (hR : ∀ a b, R a b → g b = f a) : bs.flatMap g = as.flatMap f := by
  induction h with
  | nil => rfl
  | cons hab _ ih => rw [List.flatMap_cons, List.flatMap_cons, hR _ _ hab, ih]

theorem Threads.flatMap_eq {f : α → List γ} {g : β → List γ} (h : Threads R s as bs t)
    (hR : ∀ s a b t, a ∈ as → R s a b t → g b = f a) : bs.flatMap g = as.flatMap f :=
  flatMap_eq_of_forall₂ (h.forall₂ hR) fun _ _ heq => heq

end Traversal

/-! ## Parts of the state that stay -/

section Keeps

variable {m : Type → Type} [Monad m] {σ ε κ α β : Type} [Stateful m σ ε]

/-- The computation leaves what `look` reads off the state as it is. -/
def Keeps (look : σ → κ) (x : m α) : Prop :=
  ∀ s a t, Yields x s a t → look t = look s

variable {look : σ → κ}

theorem keeps_pure (a : α) : Keeps look (pure a : m α) := by
  intro s b t h
  rw [(yields_pure.1 h).2]

theorem Keeps.bind {x : m α} {f : α → m β} (hx : Keeps look x) (hf : ∀ a, Keeps look (f a)) :
    Keeps look (x >>= f) := by
  intro s b u h
  obtain ⟨a, t, ha, hb⟩ := yields_bind.1 h
  exact (hf a t b u hb).trans (hx s a t ha)

theorem keeps_mapM [LawfulMonad m] {f : α → m β} (hf : ∀ a, Keeps look (f a)) (as : List α) :
    Keeps look (as.mapM f) := by
  induction as with
  | nil =>
    rw [List.mapM_nil]
    exact keeps_pure _
  | cons a as ih =>
    rw [List.mapM_cons]
    exact (hf a).bind fun _ => ih.bind fun _ => keeps_pure _

theorem keeps_foldlM [LawfulMonad m] {f : β → α → m β} (hf : ∀ b a, Keeps look (f b a))
    (as : List α) (b : β) : Keeps look (as.foldlM f b) := by
  induction as generalizing b with
  | nil => exact keeps_pure b
  | cons a as ih =>
    rw [List.foldlM_cons]
    exact (hf b a).bind ih

theorem Threads.keeps {R : σ → α → β → σ → Prop} {s t : σ} {as : List α} {bs : List β}
    (h : Threads R s as bs t) (hR : ∀ s a b t, R s a b t → look t = look s) : look t = look s := by
  induction h with
  | nil => rfl
  | cons hab _ ih => rw [ih, hR _ _ _ _ hab]

end Keeps

/-! ## Computed results -/

theorem exists_eq_ok_of_isOk {ε α : Type} {x : Except ε α} (h : x.isOk = true) :
    ∃ a, x = .ok a := by
  cases x with
  | error e => simp [Except.isOk, Except.toBool] at h
  | ok a => exact ⟨a, rfl⟩

theorem exists_eq_error_of_isOk {ε α : Type} {x : Except ε α} (h : x.isOk = false) :
    ∃ e, x = .error e := by
  cases x with
  | error e => exact ⟨e, rfl⟩
  | ok a => simp [Except.isOk, Except.toBool] at h

theorem exists_ok_of_eval {ε ε' α β γ : Type} {x : Except ε α} {g : α → Except ε' β}
    {f : α → β → γ} {v : γ} (h : (x.toOption.bind fun a => (g a).toOption.map (f a)) = some v) :
    ∃ a b, x = .ok a ∧ g a = .ok b ∧ f a b = v := by
  cases x with
  | error e => simp [Except.toOption] at h
  | ok a =>
    cases hb : g a with
    | error e => simp [Except.toOption, hb] at h
    | ok b => exact ⟨a, b, rfl, hb, by simpa [Except.toOption, hb] using h⟩

end TemplateLowering
