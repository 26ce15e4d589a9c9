import Mathlib.Data.List.Forall2

/-!
# Steps that may fail

Most of what is put together here goes step by step, and stops at the first
step that fails. These lemmas open such a computation from its outcome: where
it came through, every step of it did.
-/

namespace JourneyPlanner.Fallible

variable {ε α β σ : Type}

/-- A step and what follows succeed together, each on its own. -/
theorem bind_eq_ok {x : Except ε α} {f : α → Except ε β} {b : β} :
    (x >>= f) = .ok b ↔ ∃ a, x = .ok a ∧ f a = .ok b := by
  cases x with
  | error e =>
    constructor
    · intro h
      cases h
    · rintro ⟨a, ha, -⟩
      cases ha
  | ok a =>
    constructor
    · intro h
      exact ⟨a, rfl, h⟩
    · rintro ⟨a', ha, hb⟩
      cases ha
      exact hb

/-- A result mapped is the mapping of a result. -/
theorem map_eq_ok {x : Except ε α} {f : α → β} {b : β} :
    x.map f = .ok b ↔ ∃ a, x = .ok a ∧ f a = b := by
  cases x with
  | error e =>
    constructor
    · intro h
      cases h
    · rintro ⟨a, ha, -⟩
      cases ha
  | ok a =>
    constructor
    · intro h
      cases h
      exact ⟨a, rfl, rfl⟩
    · rintro ⟨a', ha, hb⟩
      cases ha
      exact congrArg Except.ok hb

/-- Renaming the error leaves the successes. -/
theorem mapError_eq_ok {ε' : Type} {x : Except ε α} {f : ε → ε'} {a : α} :
    x.mapError f = .ok a ↔ x = .ok a := by
  cases x with
  | error e =>
    constructor <;> intro h <;> cases h
  | ok a' =>
    constructor <;> intro h <;> cases h <;> rfl

/-- An error renamed comes from one that was not. -/
theorem mapError_eq_error {ε' : Type} {x : Except ε α} {f : ε → ε'} {e : ε'} :
    x.mapError f = .error e ↔ ∃ e', x = .error e' ∧ f e' = e := by
  cases x with
  | error e' =>
    constructor
    · intro h
      cases h
      exact ⟨e', rfl, rfl⟩
    · rintro ⟨e₁, h₁, rfl⟩
      cases h₁
      rfl
  | ok a =>
    constructor
    · intro h
      cases h
    · rintro ⟨e', h, -⟩
      cases h

/-- A list came through step by step: each result is that of its own item. -/
theorem forall₂_of_mapM {f : α → Except ε β} {l : List α} {r : List β}
    (h : l.mapM f = .ok r) : List.Forall₂ (fun a b => f a = .ok b) l r := by
  induction l generalizing r with
  | nil =>
    rw [List.mapM_nil] at h
    cases h
    exact List.Forall₂.nil
  | cons a l ih =>
    rw [List.mapM_cons] at h
    obtain ⟨b, hb, h⟩ := bind_eq_ok.1 h
    obtain ⟨r', hr, h⟩ := bind_eq_ok.1 h
    cases h
    exact List.Forall₂.cons hb (ih hr)

/-- Lists that pair up element by element give every element on the right a partner. -/
theorem exists_of_forall₂ {R : α → β → Prop} {l : List α} {r : List β} {b : β}
    (h : List.Forall₂ R l r) (hb : b ∈ r) : ∃ a ∈ l, R a b := by
  induction h with
  | nil => cases hb
  | cons hab _ ih =>
    rcases List.mem_cons.1 hb with rfl | hb
    · exact ⟨_, List.mem_cons_self, hab⟩
    · obtain ⟨a, ha, hok⟩ := ih hb
      exact ⟨a, List.mem_cons_of_mem _ ha, hok⟩

/-- Every result of a pass over a list comes from an element of it. -/
theorem exists_of_mem_mapM {f : α → Except ε β} {l : List α} {r : List β} {b : β}
    (h : l.mapM f = .ok r) (hb : b ∈ r) : ∃ a ∈ l, f a = .ok b := by
  obtain ⟨a, ha, hok⟩ := exists_of_forall₂ (forall₂_of_mapM h) hb
  exact ⟨a, ha, hok⟩

/-- Every element of a list that was passed over has its result. -/
theorem exists_of_mapM_mem {f : α → Except ε β} {l : List α} {r : List β} {a : α}
    (h : l.mapM f = .ok r) (ha : a ∈ l) : ∃ b ∈ r, f a = .ok b := by
  have hall := forall₂_of_mapM h
  clear h
  induction hall with
  | nil => cases ha
  | cons hab _ ih =>
    rcases List.mem_cons.1 ha with rfl | ha
    · exact ⟨_, List.mem_cons_self, hab⟩
    · obtain ⟨b, hb, hok⟩ := ih ha
      exact ⟨b, List.mem_cons_of_mem _ hb, hok⟩

/-- Where related items come to the same, related lists do. -/
theorem mapM_eq_of_forall₂ {γ : Type} {R : α → γ → Prop} {f : α → Except ε β}
    {g : γ → Except ε β} {l : List α} {l' : List γ} {r r' : List β} (h : List.Forall₂ R l l')
    (hsame : ∀ a c b b', R a c → f a = .ok b → g c = .ok b' → b = b') (hr : l.mapM f = .ok r)
    (hr' : l'.mapM g = .ok r') : r = r' := by
  have hall := forall₂_of_mapM hr
  have hall' := forall₂_of_mapM hr'
  clear hr hr'
  induction h generalizing r r' with
  | nil =>
    cases hall
    cases hall'
    rfl
  | cons hac _ ih =>
    cases hall with
    | cons hb hall =>
      cases hall' with
      | cons hb' hall' => rw [hsame _ _ _ _ hac hb hb', ih hall hall']

/-- A pass that succeeds succeeded on every element. -/
theorem forM_ok {f : α → Except ε Unit} {l : List α} {u : Unit} (h : l.forM f = .ok u) :
    ∀ a ∈ l, f a = .ok () := by
  induction l with
  | nil => simp
  | cons a l ih =>
    obtain ⟨⟨⟩, ha, h⟩ := bind_eq_ok (f := fun _ => l.forM f).1 h
    intro x hx
    rcases List.mem_cons.1 hx with rfl | hx
    · exact ha
    · exact ih h x hx

/-- What every step keeps holds after all of them. -/
theorem foldlM_keeps {P : σ → Prop} {f : σ → α → Except ε σ} {l : List α} {s s' : σ}
    (step : ∀ s a s', a ∈ l → P s → f s a = .ok s' → P s') (hs : P s)
    (h : l.foldlM f s = .ok s') : P s' := by
  induction l generalizing s with
  | nil =>
    cases h
    exact hs
  | cons a l ih =>
    rw [List.foldlM_cons] at h
    obtain ⟨s₁, h₁, h⟩ := bind_eq_ok.1 h
    exact ih (fun s b s' hb => step s b s' (List.mem_cons_of_mem a hb))
      (step s a s₁ List.mem_cons_self hs h₁) h

/-- Where every step leaves something behind that no later step takes away, it is
there after all of them. -/
theorem foldlM_forall {P : σ → Prop} {Q : α → σ → Prop} {f : σ → α → Except ε σ} {l : List α}
    {s s' : σ} (step : ∀ s a s', a ∈ l → P s → f s a = .ok s' → P s' ∧ Q a s')
    (keep : ∀ s a s' b, a ∈ l → P s → f s a = .ok s' → Q b s → Q b s') (hs : P s)
    (h : l.foldlM f s = .ok s') : ∀ a ∈ l, Q a s' := by
  induction l generalizing s with
  | nil => exact fun a ha => absurd ha List.not_mem_nil
  | cons a l ih =>
    rw [List.foldlM_cons] at h
    obtain ⟨s₁, h₁, h⟩ := bind_eq_ok.1 h
    obtain ⟨hs₁, hq⟩ := step s a s₁ List.mem_cons_self hs h₁
    intro b hb
    rcases List.mem_cons.1 hb with heq | hb
    · rw [heq]
      refine (foldlM_keeps (P := fun s => P s ∧ Q a s) (fun s c s' hc hps hf => ?_) ⟨hs₁, hq⟩ h).2
      exact ⟨(step s c s' (List.mem_cons_of_mem _ hc) hps.1 hf).1,
        keep s c s' a (List.mem_cons_of_mem _ hc) hps.1 hf hps.2⟩
    · exact ih (fun s c s' hc => step s c s' (List.mem_cons_of_mem _ hc))
        (fun s c s' d hc => keep s c s' d (List.mem_cons_of_mem _ hc)) hs₁ h b hb

/-- A step and what follows fail with the step's error, or with that of what follows. -/
theorem bind_eq_error {x : Except ε α} {f : α → Except ε β} {e : ε} :
    (x >>= f) = .error e ↔ x = .error e ∨ ∃ a, x = .ok a ∧ f a = .error e := by
  cases x with
  | error e' =>
    constructor
    · intro h
      cases h
      exact Or.inl rfl
    · rintro (h | ⟨a, ha, -⟩)
      · cases h
        rfl
      · cases ha
  | ok a =>
    constructor
    · intro h
      exact Or.inr ⟨a, rfl, h⟩
    · rintro (h | ⟨a', ha, he⟩)
      · cases h
      · cases ha
        exact he

/-- The step that fails starts from what the steps before it have kept. -/
theorem foldlM_error {P : σ → Prop} {E : ε → Prop} {f : σ → α → Except ε σ} {l : List α} {s : σ}
    {e : ε} (step : ∀ s a s', a ∈ l → P s → f s a = .ok s' → P s')
    (fail : ∀ s a e, a ∈ l → P s → f s a = .error e → E e) (hs : P s)
    (h : l.foldlM f s = .error e) : E e := by
  induction l generalizing s with
  | nil => cases h
  | cons a l ih =>
    rw [List.foldlM_cons] at h
    rcases bind_eq_error.1 h with h₁ | ⟨s₁, h₁, h⟩
    · exact fail s a e List.mem_cons_self hs h₁
    · exact ih (fun s b s' hb => step s b s' (List.mem_cons_of_mem a hb))
        (fun s b e hb => fail s b e (List.mem_cons_of_mem a hb))
        (step s a s₁ List.mem_cons_self hs h₁) h

/-- A list that fails does so at one of its items. -/
theorem exists_of_mapM_error {f : α → Except ε β} {l : List α} {e : ε}
    (h : l.mapM f = .error e) : ∃ a ∈ l, f a = .error e := by
  induction l with
  | nil =>
    rw [List.mapM_nil] at h
    cases h
  | cons a l ih =>
    rw [List.mapM_cons] at h
    rcases bind_eq_error.1 h with ha | ⟨b, -, h⟩
    · exact ⟨a, List.mem_cons_self, ha⟩
    · rcases bind_eq_error.1 h with hl | ⟨r, -, h⟩
      · obtain ⟨a', ha', he⟩ := ih hl
        exact ⟨a', List.mem_cons_of_mem _ ha', he⟩
      · cases h

/-- Where every item comes through, the list does. -/
theorem exists_mapM_eq_ok {f : α → Except ε β} {l : List α} (h : ∀ a ∈ l, ∃ b, f a = .ok b) :
    ∃ r, l.mapM f = .ok r := by
  induction l with
  | nil => exact ⟨[], rfl⟩
  | cons a l ih =>
    obtain ⟨b, hb⟩ := h a List.mem_cons_self
    obtain ⟨r, hr⟩ := ih fun a ha => h a (List.mem_cons_of_mem _ ha)
    refine ⟨b :: r, ?_⟩
    rw [List.mapM_cons]
    exact bind_eq_ok.2 ⟨b, hb, bind_eq_ok.2 ⟨r, hr, rfl⟩⟩

end JourneyPlanner.Fallible
