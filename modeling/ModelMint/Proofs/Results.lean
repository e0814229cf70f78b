import Mathlib

/-!
# Results that may be errors

When a chain of results is a value, and when it is an error.
-/

namespace ModelMint

variable {ε α β : Type}

theorem bind_eq_ok {result : Except ε α} {next : α → Except ε β} {value : β} :
    (result >>= next) = .ok value ↔ ∃ first, result = .ok first ∧ next first = .ok value := by
  cases result with
  | ok first => simp [bind, Except.bind]
  | error found => simp [bind, Except.bind]

theorem bind_ne_ok {result : Except ε α} {next : α → Except ε β} {value : β}
    (h : ∀ first, next first ≠ .ok value) : (result >>= next) ≠ .ok value := by
  intro hbind
  obtain ⟨first, -, hnext⟩ := bind_eq_ok.mp hbind
  exact h first hnext

theorem bind_eq_error {result : Except ε α} {next : α → Except ε β} {found : ε} :
    (result >>= next) = .error found ↔
      result = .error found ∨ ∃ first, result = .ok first ∧ next first = .error found := by
  cases result with
  | ok first => simp [bind, Except.bind]
  | error other => simp [bind, Except.bind]

theorem map_eq_ok {result : Except ε α} {f : α → β} {value : β} :
    result.map f = .ok value ↔ ∃ first, result = .ok first ∧ f first = value := by
  cases result <;> simp [Except.map]

theorem map_eq_error {result : Except ε α} {f : α → β} {found : ε} :
    result.map f = .error found ↔ result = .error found := by
  cases result <;> simp [Except.map]

theorem mapError_eq_ok {δ : Type} {result : Except ε α} {f : ε → δ} {value : α} :
    result.mapError f = .ok value ↔ result = .ok value := by
  cases result <;> simp [Except.mapError]

theorem mapError_eq_error {δ : Type} {result : Except ε α} {f : ε → δ} {found : δ} :
    result.mapError f = .error found ↔ ∃ inner, result = .error inner ∧ f inner = found := by
  cases result <;> simp [Except.mapError]

theorem mapM_eq_ok {f : α → Except ε β} {items : List α} {values : List β} :
    items.mapM f = .ok values ↔ List.Forall₂ (fun item value => f item = .ok value) items values := by
  induction items generalizing values with
  | nil => simp [pure, Except.pure, eq_comm]
  | cons item rest ih =>
      rw [List.mapM_cons, bind_eq_ok]
      constructor
      · rintro ⟨first, hfirst, hrest⟩
        obtain ⟨others, hothers, hvalues⟩ := bind_eq_ok.mp hrest
        cases hvalues
        exact .cons hfirst (ih.mp hothers)
      · rintro (_ | ⟨hfirst, hrest⟩)
        exact ⟨_, hfirst, bind_eq_ok.mpr ⟨_, ih.mpr hrest, rfl⟩⟩

theorem exists_left_of_mem {R : α → β → Prop} {items : List α} {values : List β}
    (h : List.Forall₂ R items values) {value : β} (hvalue : value ∈ values) :
    ∃ item ∈ items, R item value := by
  induction h with
  | nil => cases hvalue
  | cons hfirst _ ih =>
      rcases List.mem_cons.mp hvalue with rfl | hrest
      · exact ⟨_, List.mem_cons_self, hfirst⟩
      · obtain ⟨item, hitem, hrelated⟩ := ih hrest
        exact ⟨item, List.mem_cons_of_mem _ hitem, hrelated⟩

theorem exists_right_of_mem {R : α → β → Prop} {items : List α} {values : List β}
    (h : List.Forall₂ R items values) {item : α} (hitem : item ∈ items) :
    ∃ value ∈ values, R item value :=
  exists_left_of_mem h.flip hitem

theorem forall₂_of_map_eq {γ : Type} {f : α → γ} {g : β → γ} {items : List α} {others : List β}
    (h : items.map f = others.map g) :
    List.Forall₂ (fun item other => f item = g other) items others := by
  have hmaps : List.Forall₂ (· = ·) (items.map f) (others.map g) := by
    rw [List.forall₂_eq_eq_eq]
    exact h
  rwa [List.forall₂_map_left_iff, List.forall₂_map_right_iff] at hmaps

theorem mapM_eq_ok_map {f : α → Except ε β} {g : α → β} {items : List α}
    (h : ∀ item ∈ items, f item = .ok (g item)) : items.mapM f = .ok (items.map g) := by
  rw [mapM_eq_ok, List.forall₂_map_right_iff, List.forall₂_same]
  exact h

theorem mapM_eq_error {f : α → Except ε β} {items : List α} {found : ε} :
    items.mapM f = .error found ↔ ∃ before item after, items = before ++ item :: after ∧
      (∀ other ∈ before, ∃ value, f other = .ok value) ∧ f item = .error found := by
  induction items with
  | nil => simp [pure, Except.pure]
  | cons first rest ih =>
      rw [List.mapM_cons, bind_eq_error]
      constructor
      · rintro (hfirst | ⟨value, hfirst, hrest⟩)
        · exact ⟨[], first, rest, rfl, by simp, hfirst⟩
        · obtain hothers | ⟨values, -, hpure⟩ := bind_eq_error.mp hrest
          · obtain ⟨before, item, after, rfl, hbefore, hitem⟩ := ih.mp hothers
            refine ⟨first :: before, item, after, rfl, ?_, hitem⟩
            exact List.forall_mem_cons.mpr ⟨⟨value, hfirst⟩, hbefore⟩
          · cases hpure
      · rintro ⟨before, item, after, hitems, hbefore, hitem⟩
        cases before with
        | nil =>
            cases hitems
            exact .inl hitem
        | cons other before =>
            cases hitems
            obtain ⟨⟨value, hfirst⟩, hbefore⟩ := List.forall_mem_cons.mp hbefore
            have hlater := ih.mpr ⟨before, item, after, rfl, hbefore, hitem⟩
            exact .inr ⟨value, hfirst, bind_eq_error.mpr (.inl hlater)⟩

/-! ## What is seen of a result -/

variable {γ δ : Type}

theorem map_bind {result : Except ε α} {next : α → Except ε β} {g : β → γ} :
    (result >>= next).map g = result >>= fun value => (next value).map g := by
  cases result <;> rfl

theorem bind_map_left {result : Except ε α} {f : α → β} {next : β → Except ε γ} :
    (result.map f >>= next) = result >>= fun value => next (f value) := by
  cases result <;> rfl

theorem map_map {result : Except ε α} {f : α → β} {g : β → γ} :
    (result.map f).map g = result.map fun value => g (f value) := by
  cases result <;> rfl

theorem map_mapError {ζ : Type} {result : Except ε α} {f : ε → ζ} {g : α → β} :
    (result.mapError f).map g = (result.map g).mapError f := by
  cases result <;> rfl

/-- What comes next may depend on what is seen of the results before it. -/
theorem bind_congr_of_map {result : Except ε α} {other : Except ε β} {f : α → γ} {g : β → γ}
    {next : α → Except ε δ} {later : β → Except ε δ} (h : result.map f = other.map g)
    (hnext : ∀ value some, f value = g some → next value = later some) :
    (result >>= next) = (other >>= later) := by
  cases result <;> cases other <;> simp only [Except.map, Except.ok.injEq, Except.error.injEq,
    reduceCtorEq] at h
  · rw [h]
    rfl
  · exact hnext _ _ h

theorem mapM_map_right {f : α → Except ε β} {g : β → γ} {items : List α} :
    (items.mapM fun item => (f item).map g) = (items.mapM f).map (List.map g) := by
  induction items with
  | nil => rfl
  | cons item rest ih =>
      rw [List.mapM_cons, List.mapM_cons, ih, map_bind, bind_map_left]
      simp only [map_bind, bind_map_left]
      rfl

theorem mapM_congr {f : α → Except ε γ} {g : β → Except ε γ} {items : List α} {others : List β}
    (h : List.Forall₂ (fun item other => f item = g other) items others) :
    items.mapM f = others.mapM g := by
  induction h with
  | nil => rfl
  | cons hfirst _ ih => rw [List.mapM_cons, List.mapM_cons, hfirst, ih]

theorem map_mapM_congr {f : α → Except ε γ} {g : β → Except ε δ} {ζ : Type} {u : γ → ζ} {v : δ → ζ}
    {items : List α} {others : List β}
    (h : List.Forall₂ (fun item other => (f item).map u = (g other).map v) items others) :
    (items.mapM f).map (List.map u) = (others.mapM g).map (List.map v) := by
  rw [← mapM_map_right, ← mapM_map_right]
  exact mapM_congr h

/-! ## Results side by side -/

/-- The same error, or values that are related. -/
inductive Alongside (related : α → β → Prop) : Except ε α → Except ε β → Prop where
  | error (found : ε) : Alongside related (.error found) (.error found)
  | ok {value : α} {other : β} (h : related value other) : Alongside related (.ok value) (.ok other)

theorem Alongside.bind {related : α → β → Prop} {later : γ → δ → Prop} {result : Except ε α}
    {other : Except ε β} {next : α → Except ε γ} {following : β → Except ε δ}
    (h : Alongside related result other)
    (hnext : ∀ value other, related value other → Alongside later (next value) (following other)) :
    Alongside later (result >>= next) (other >>= following) := by
  cases h with
  | error found => exact .error found
  | ok h => exact hnext _ _ h

/-- Folds that start and go on side by side end side by side. -/
theorem alongside_foldlM {related : β → γ → Prop} {f : β → α → Except ε β} {g : γ → α → Except ε γ}
    {items : List α}
    (h : ∀ item ∈ items, ∀ value other, related value other →
      Alongside related (f value item) (g other item)) {value : β} {other : γ}
    (hstart : related value other) : Alongside related (items.foldlM f value) (items.foldlM g other) := by
  induction items generalizing value other with
  | nil => exact .ok hstart
  | cons item rest ih =>
      rw [List.foldlM_cons, List.foldlM_cons]
      refine (h item List.mem_cons_self value other hstart).bind fun middle second hmiddle => ?_
      exact ih (fun item hitem => h item (List.mem_cons_of_mem _ hitem)) hmiddle

/-! ## What an error is like -/

/-- If the result is an error, then one as described. -/
def FailsWith (P : ε → Prop) (result : Except ε α) : Prop :=
  ∀ found, result = .error found → P found

variable {P : ε → Prop}

theorem failsWith_ok {value : α} : FailsWith P (.ok value) := by
  intro found h
  cases h

theorem failsWith_error {found : ε} (h : P found) : FailsWith P (.error found : Except ε α) := by
  intro other hother
  cases hother
  exact h

theorem FailsWith.imp {Q : ε → Prop} {result : Except ε α} (h : FailsWith P result)
    (himp : ∀ found, P found → Q found) : FailsWith Q result :=
  fun found hfound => himp found (h found hfound)

theorem FailsWith.bind {result : Except ε α} {next : α → Except ε β} (h : FailsWith P result)
    (hnext : ∀ value, result = .ok value → FailsWith P (next value)) :
    FailsWith P (result >>= next) := by
  intro found hfound
  rcases bind_eq_error.mp hfound with hfirst | ⟨value, hvalue, hlater⟩
  · exact h found hfirst
  · exact hnext value hvalue found hlater

theorem FailsWith.map {result : Except ε α} {f : α → β} (h : FailsWith P result) :
    FailsWith P (result.map f) := by
  intro found hfound
  exact h found (map_eq_error.mp hfound)

theorem failsWith_foldlM {f : β → α → Except ε β} {items : List α}
    (h : ∀ value, ∀ item ∈ items, FailsWith P (f value item)) (value : β) :
    FailsWith P (items.foldlM f value) := by
  induction items generalizing value with
  | nil => exact failsWith_ok
  | cons item rest ih =>
      rw [List.foldlM_cons]
      exact (h value item List.mem_cons_self).bind fun middle _ =>
        ih (fun value other hother => h value other (List.mem_cons_of_mem _ hother)) middle

theorem failsWith_mapM {f : α → Except ε β} {items : List α}
    (h : ∀ item ∈ items, FailsWith P (f item)) : FailsWith P (items.mapM f) := by
  intro found hfound
  obtain ⟨before, item, after, rfl, -, herror⟩ := mapM_eq_error.mp hfound
  exact h item (by simp) found herror

end ModelMint
