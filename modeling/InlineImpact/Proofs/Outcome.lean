/-!
Computations that may fail, and sequences of them: such a sequence succeeds if each part of it does, and fails in
no other ways than its parts.
-/
namespace InlineImpact

variable {ε α β : Type}

/-- A computation that may fail succeeds only if each part of it does. -/
theorem exists_of_bind_eq_ok {x : Except ε α} {f : α → Except ε β} {b : β} (h : (x >>= f) = .ok b) :
    ∃ a, x = .ok a ∧ f a = .ok b := by
  cases x with
  | error e => cases h
  | ok a => exact ⟨a, rfl, h⟩

/-- What goes on in the same way after one step ends in the same way. -/
theorem exists_bind_eq_ok {x : Except ε α} {f g : α → Except ε β} {b : β} {p : β → Prop}
    (h : (x >>= f) = .ok b) (hnext : ∀ a, f a = .ok b → ∃ b', g a = .ok b' ∧ p b') :
    ∃ b', (x >>= g) = .ok b' ∧ p b' := by
  obtain ⟨a, rfl, h⟩ := exists_of_bind_eq_ok h
  exact hnext a h

theorem exists_of_isOk {x : Except ε α} (h : x.isOk = true) : ∃ a, x = .ok a := by
  cases x with
  | error e => cases h
  | ok a => exact ⟨a, rfl⟩

/-- A failure is that of one of the parts. -/
theorem of_bind_eq_error {x : Except ε α} {f : α → Except ε β} {e : ε} (h : (x >>= f) = .error e) :
    x = .error e ∨ ∃ a, x = .ok a ∧ f a = .error e := by
  cases x with
  | error e' =>
    cases h
    exact .inl rfl
  | ok a => exact .inr ⟨a, rfl, h⟩

/-- Another wording of failures makes no result. -/
theorem mapError_eq_ok {δ : Type} {g : ε → δ} {x : Except ε α} {a : α} :
    x.mapError g = .ok a ↔ x = .ok a := by
  cases x with
  | error e => exact ⟨nofun, nofun⟩
  | ok b =>
    constructor
    all_goals
      intro h
      cases h
      rfl

/-- A sequence succeeds with what its parts succeed with. -/
theorem mapM_eq_ok_iff {f : α → Except ε β} {l : List α} {bs : List β} :
    l.mapM f = .ok bs ↔ l.map f = bs.map Except.ok := by
  induction l generalizing bs with
  | nil => cases bs <;> simp [pure, Except.pure]
  | cons a l ih =>
    rw [List.mapM_cons, List.map_cons]
    constructor
    · intro h
      obtain ⟨b, hb, h⟩ := exists_of_bind_eq_ok h
      obtain ⟨bs', hbs, h⟩ := exists_of_bind_eq_ok h
      rw [hb, ih.1 hbs, ← Except.ok.inj h, List.map_cons]
    · intro h
      cases bs with
      | nil => cases h
      | cons b bs =>
        obtain ⟨hb, hbs⟩ := List.cons_eq_cons.1 h
        rw [hb, ih.2 hbs]
        rfl

theorem mapM_eq_ok {f : α → Except ε β} {g : α → β} {l : List α} (h : ∀ a ∈ l, f a = .ok (g a)) :
    l.mapM f = .ok (l.map g) := by
  rw [mapM_eq_ok_iff, List.map_map]
  exact List.map_congr_left h

theorem exists_mapM_eq_ok {f : α → Except ε β} {l : List α} (h : ∀ a ∈ l, ∃ b, f a = .ok b) :
    ∃ bs, l.mapM f = .ok bs := by
  induction l with
  | nil => exact ⟨[], rfl⟩
  | cons a l ih =>
    obtain ⟨b, hb⟩ := h a (.head _)
    obtain ⟨bs, hbs⟩ := ih fun a ha => h a (.tail _ ha)
    exact ⟨b :: bs, by rw [List.mapM_cons, hb, hbs]; rfl⟩

/-- Sequences of the same parts have the same outcome. -/
theorem mapM_congr {γ : Type} {f : α → Except ε β} {g : γ → Except ε β} {l : List α} {l' : List γ}
    (h : l.map f = l'.map g) : l.mapM f = l'.mapM g := by
  induction l generalizing l' with
  | nil =>
    rw [List.map_eq_nil_iff.1 h.symm]
    rfl
  | cons a l ih =>
    cases l' with
    | nil => cases h
    | cons a' l' =>
      obtain ⟨ha, hl⟩ := List.cons_eq_cons.1 h
      rw [List.mapM_cons, List.mapM_cons, ha, ih hl]

/-- A sequence succeeds only if each of its parts does. -/
theorem exists_of_mapM_eq_ok {f : α → Except ε β} {l : List α} {bs : List β} (h : l.mapM f = .ok bs) :
    ∀ a ∈ l, ∃ b ∈ bs, f a = .ok b := by
  intro a ha
  obtain ⟨b, hb, hfa⟩ := List.mem_map.1 (mapM_eq_ok_iff.1 h ▸ List.mem_map_of_mem ha)
  exact ⟨b, hb, hfa.symm⟩

/-- Every result of a sequence is that of one of its parts. -/
theorem exists_of_mem_mapM {f : α → Except ε β} {l : List α} {bs : List β} (h : l.mapM f = .ok bs) :
    ∀ b ∈ bs, ∃ a ∈ l, f a = .ok b := by
  intro b hb
  exact List.mem_map.1 (mapM_eq_ok_iff.1 h ▸ List.mem_map_of_mem hb)

/-- A sequence fails as one of its parts does. -/
theorem exists_of_mapM_eq_error {f : α → Except ε β} {e : ε} {l : List α} (h : l.mapM f = .error e) :
    ∃ a ∈ l, f a = .error e := by
  induction l with
  | nil => cases h
  | cons a l ih =>
    rw [List.mapM_cons] at h
    rcases of_bind_eq_error h with ha | ⟨b, -, h⟩
    · exact ⟨a, .head _, ha⟩
    · rcases of_bind_eq_error h with hl | ⟨bs, -, h⟩
      · obtain ⟨c, hc, hce⟩ := ih hl
        exact ⟨c, .tail _ hc, hce⟩
      · cases h

/-- The first failure of a sequence is the only one there is. -/
theorem mapM_eq_error {f : α → Except ε β} {e : ε} {l : List α}
    (h : ∀ a ∈ l, f a = .error e ∨ ∃ b, f a = .ok b) (hex : ∃ a ∈ l, f a = .error e) :
    l.mapM f = .error e := by
  induction l with
  | nil =>
    obtain ⟨a, ha, -⟩ := hex
    cases ha
  | cons a l ih =>
    rw [List.mapM_cons]
    rcases h a (.head _) with ha | ⟨b, hb⟩
    · rw [ha]
      rfl
    · obtain ⟨c, hc, hce⟩ := hex
      rcases List.mem_cons.1 hc with rfl | hc
      · rw [hb] at hce
        cases hce
      · rw [hb, ih (fun a ha => h a (.tail _ ha)) ⟨c, hc, hce⟩]
        rfl

/-- A computation that fails in some ways only. -/
def FailsOnly (p : ε → Prop) (x : Except ε α) : Prop := ∀ e, x = .error e → p e

namespace FailsOnly

variable {p q : ε → Prop} {x : Except ε α} {f : α → Except ε β} {e : ε}

theorem ok (a : α) : FailsOnly p (.ok a : Except ε α) := nofun

theorem error_iff : FailsOnly p (.error e : Except ε α) ↔ p e := by
  constructor
  · exact fun h => h e rfl
  · rintro h _ ⟨⟩
    exact h

theorem error (h : p e) : FailsOnly p (.error e : Except ε α) := error_iff.2 h

theorem mono (hx : FailsOnly p x) (h : ∀ e, p e → q e) : FailsOnly q x := fun e he => h e (hx e he)

theorem bind_iff : FailsOnly p (x >>= f) ↔ FailsOnly p x ∧ ∀ a, x = .ok a → FailsOnly p (f a) := by
  cases x with
  | error e =>
    rw [show (Except.error e >>= f) = .error e from rfl, error_iff, error_iff]
    exact ⟨fun h => ⟨h, nofun⟩, fun h => h.1⟩
  | ok a =>
    constructor
    · intro h
      refine ⟨ok a, ?_⟩
      rintro _ ⟨⟩
      exact h
    · exact fun h => h.2 a rfl

theorem bind (hx : FailsOnly p x) (hf : ∀ a, FailsOnly p (f a)) : FailsOnly p (x >>= f) :=
  bind_iff.2 ⟨hx, fun a _ => hf a⟩

theorem mapError {δ : Type} {y : Except δ α} {g : δ → ε} (h : ∀ d, p (g d)) : FailsOnly p (y.mapError g) := by
  cases y with
  | error d => exact error (h d)
  | ok a => exact ok a

theorem map {g : α → β} (hx : FailsOnly p x) : FailsOnly p (x.map g) := by
  cases x with
  | error e => exact error (hx e rfl)
  | ok a => exact ok (g a)

/-- One after the other, until one fails. -/
theorem mapM (hf : ∀ a, FailsOnly p (f a)) (l : List α) : FailsOnly p (l.mapM f) := by
  induction l with
  | nil => exact ok []
  | cons a l ih =>
    rw [List.mapM_cons]
    exact bind (hf a) fun _ => bind ih fun _ => ok _

/-- What fails in other ways than these fails in one of these only if it does not fail at all. -/
theorem iff_exists_ok (hx : FailsOnly q x) (h : ∀ e, q e → ¬p e) : FailsOnly p x ↔ ∃ a, x = .ok a := by
  cases x with
  | error e => exact iff_of_false (fun hp => h e (hx e rfl) (hp e rfl)) nofun
  | ok a => exact iff_of_true (ok a) ⟨a, rfl⟩

end FailsOnly

end InlineImpact
