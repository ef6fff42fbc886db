import Mathlib.Data.List.Forall2
import TinyCpu.Source

/-!
# Results of runs

When a step, a chain of steps or a list of steps gives a value.  A list of steps gives values
exactly if every step gives one (`mapM_eq_ok_iff`), and a list or a run fails at the first step
that fails (`mapM_eq_error_iff`, `foldlM_eq_error_iff`).  Two runs whose steps agree, in values and
in errors, agree as a whole (`Agree.foldlM`).
-/

namespace TinyCpu

section
variable {ε α β : Type}

theorem forall_mem_left_of_forall₂ {r : α → β → Prop} {as : List α} {bs : List β} {p : α → Prop}
    (h : List.Forall₂ r as bs) (hp : ∀ a b, r a b → p a) : ∀ a ∈ as, p a :=
  ((List.forall₂_and_left as bs).mp (h.imp fun a b hab => ⟨hp a b hab, hab⟩)).1

theorem forall_mem_right_of_forall₂ {r : α → β → Prop} {as : List α} {bs : List β} {p : β → Prop}
    (h : List.Forall₂ r as bs) (hp : ∀ a b, r a b → p b) : ∀ b ∈ bs, p b :=
  forall_mem_left_of_forall₂ h.flip fun b a hab => hp a b hab

theorem bind_eq_ok_iff (x : Except ε α) (f : α → Except ε β) (b : β) :
    x.bind f = .ok b ↔ ∃ a, x = .ok a ∧ f a = .ok b := by
  cases x with
  | error e => simp [Except.bind]
  | ok a => simp [Except.bind]

theorem map_eq_ok_iff (x : Except ε α) (f : α → β) (b : β) :
    x.map f = .ok b ↔ ∃ a, x = .ok a ∧ f a = b := by
  cases x with
  | error e => simp [Except.map]
  | ok a => simp [Except.map]

theorem mapM_cons_eq (f : α → Except ε β) (a : α) (as : List α) :
    (a :: as).mapM f = (f a).bind fun b => (as.mapM f).map fun bs => b :: bs := by
  rw [List.mapM_cons]
  rfl

theorem mapM_eq_ok_iff (f : α → Except ε β) (as : List α) (bs : List β) :
    as.mapM f = .ok bs ↔ List.Forall₂ (fun a b => f a = .ok b) as bs := by
  induction as generalizing bs with
  | nil =>
    rw [List.mapM_nil, List.forall₂_nil_left_iff]
    exact ⟨fun h => (Except.ok.inj h).symm, fun h => congrArg Except.ok h.symm⟩
  | cons a as ih =>
    rw [mapM_cons_eq, bind_eq_ok_iff, List.forall₂_cons_left_iff]
    constructor
    · rintro ⟨b, hb, h⟩
      obtain ⟨cs, hcs, rfl⟩ := (map_eq_ok_iff _ _ _).mp h
      exact ⟨b, cs, hb, (ih cs).mp hcs, rfl⟩
    · rintro ⟨b, cs, hb, hcs, rfl⟩
      exact ⟨b, hb, (map_eq_ok_iff _ _ _).mpr ⟨cs, (ih cs).mpr hcs, rfl⟩⟩

theorem exists_mapM_eq_ok_iff (f : α → Except ε β) (as : List α) :
    (∃ bs, as.mapM f = .ok bs) ↔ ∀ a ∈ as, ∃ b, f a = .ok b := by
  induction as with
  | nil => exact ⟨fun _ a ha => absurd ha (by simp), fun _ => ⟨[], rfl⟩⟩
  | cons a as ih =>
    rw [List.forall_mem_cons, ← ih]
    constructor
    · rintro ⟨bs, h⟩
      rw [mapM_eq_ok_iff, List.forall₂_cons_left_iff] at h
      obtain ⟨b, cs, hb, hcs, rfl⟩ := h
      exact ⟨⟨b, hb⟩, cs, (mapM_eq_ok_iff f as cs).mpr hcs⟩
    · rintro ⟨⟨b, hb⟩, cs, hcs⟩
      rw [mapM_eq_ok_iff] at hcs
      exact ⟨b :: cs, (mapM_eq_ok_iff f (a :: as) (b :: cs)).mpr (.cons hb hcs)⟩

theorem foldlM_cons_eq (f : β → α → Except ε β) (b : β) (a : α) (as : List α) :
    (a :: as).foldlM f b = (f b a).bind fun b' => as.foldlM f b' := by
  rw [List.foldlM_cons]
  rfl

theorem foldlM_append_eq (f : β → α → Except ε β) (b : β) (as as' : List α) :
    (as ++ as').foldlM f b = (as.foldlM f b).bind fun b' => as'.foldlM f b' := by
  rw [List.foldlM_append]
  rfl

theorem bind_eq_error_iff (x : Except ε α) (f : α → Except ε β) (e : ε) :
    x.bind f = .error e ↔ x = .error e ∨ ∃ a, x = .ok a ∧ f a = .error e := by
  cases x with
  | error e => simp [Except.bind]
  | ok a => simp [Except.bind]

theorem map_eq_error_iff (x : Except ε α) (f : α → β) (e : ε) :
    x.map f = .error e ↔ x = .error e := by
  cases x with
  | error e => simp [Except.map]
  | ok a => simp [Except.map]

/-- a run fails at the first step that fails -/
theorem foldlM_eq_error_iff (f : β → α → Except ε β) (b : β) (as : List α) (e : ε) :
    as.foldlM f b = .error e ↔ ∃ before a after b', as = before ++ a :: after ∧
      before.foldlM f b = .ok b' ∧ f b' a = .error e := by
  constructor
  · intro h
    induction as generalizing b with
    | nil => exact absurd h (by simp [pure, Except.pure])
    | cons a as ih =>
      rw [foldlM_cons_eq, bind_eq_error_iff] at h
      rcases h with ha | ⟨b', hb', h⟩
      · exact ⟨[], a, as, b, rfl, rfl, ha⟩
      · obtain ⟨before, a', after, b'', rfl, hbefore, ha'⟩ := ih b' h
        refine ⟨a :: before, a', after, b'', rfl, ?_, ha'⟩
        rw [foldlM_cons_eq, hb']
        exact hbefore
  · rintro ⟨before, a, after, b', rfl, hbefore, ha⟩
    rw [foldlM_append_eq, hbefore]
    show (a :: after).foldlM f b' = .error e
    rw [foldlM_cons_eq, ha]
    rfl

theorem mapM_eq_error_iff (f : α → Except ε β) (as : List α) (e : ε) :
    as.mapM f = .error e ↔ ∃ before a after, as = before ++ a :: after ∧
      (∀ x ∈ before, ∃ b, f x = .ok b) ∧ f a = .error e := by
  constructor
  · intro h
    induction as with
    | nil => exact absurd h (by simp [pure, Except.pure])
    | cons a as ih =>
      rw [mapM_cons_eq, bind_eq_error_iff] at h
      rcases h with ha | ⟨b, hb, h⟩
      · exact ⟨[], a, as, rfl, fun _ hx => absurd hx List.not_mem_nil, ha⟩
      · obtain ⟨before, a', after, rfl, hbefore, ha'⟩ := ih ((map_eq_error_iff _ _ _).mp h)
        exact ⟨a :: before, a', after, rfl, List.forall_mem_cons.mpr ⟨⟨b, hb⟩, hbefore⟩, ha'⟩
  · rintro ⟨before, a, after, rfl, hbefore, ha⟩
    induction before with
    | nil =>
      rw [List.nil_append, mapM_cons_eq, ha]
      rfl
    | cons x before ih =>
      obtain ⟨⟨b, hb⟩, hrest⟩ := List.forall_mem_cons.mp hbefore
      rw [List.cons_append, mapM_cons_eq, hb]
      show Except.map _ ((before ++ a :: after).mapM f) = .error e
      rw [ih hrest]
      rfl

/-! ## Two runs -/

/-- two results agree: both are values that the relation `r` holds of, or both are errors that `e`
holds of -/
inductive Agree {ε α β : Type} (e : ε → ε → Prop) (r : α → β → Prop) :
    Except ε α → Except ε β → Prop
  | ok {a : α} {b : β} (h : r a b) : Agree e r (.ok a) (.ok b)
  | error {x y : ε} (h : e x y) : Agree e r (.error x) (.error y)

namespace Agree
variable {γ δ : Type} {e : ε → ε → Prop} {r : α → β → Prop} {q : γ → δ → Prop}

theorem eq_ok_iff {x y : Except ε α} (h : Agree e Eq x y) (a : α) : x = .ok a ↔ y = .ok a := by
  cases h with
  | ok hab => rw [hab]
  | error _ => simp

theorem ok_or_error {x y : Except ε α} (h : Agree e Eq x y) :
    (∃ a, x = .ok a ∧ y = .ok a) ∨ ∃ u v, x = .error u ∧ y = .error v ∧ e u v := by
  cases h with
  | ok hab => exact .inl ⟨_, rfl, congrArg Except.ok hab.symm⟩
  | error huv => exact .inr ⟨_, _, rfl, rfl, huv⟩

theorem bind {x : Except ε α} {y : Except ε β} (h : Agree e r x y) {f : α → Except ε γ}
    {g : β → Except ε δ} (hfg : ∀ a b, r a b → Agree e q (f a) (g b)) :
    Agree e q (x.bind f) (y.bind g) := by
  cases h with
  | ok hab => exact hfg _ _ hab
  | error hxy => exact .error hxy

theorem map {x : Except ε α} {y : Except ε β} (h : Agree e r x y) {f : α → γ} {g : β → δ}
    (hfg : ∀ a b, r a b → q (f a) (g b)) : Agree e q (x.map f) (y.map g) := by
  cases h with
  | ok hab => exact .ok (hfg _ _ hab)
  | error hxy => exact .error hxy

theorem mapM {as : List α} {bs : List β} (h : List.Forall₂ r as bs) {f : α → Except ε γ}
    {g : β → Except ε δ} (hfg : ∀ a b, r a b → Agree e q (f a) (g b)) :
    Agree e (List.Forall₂ q) (as.mapM f) (bs.mapM g) := by
  induction h with
  | nil => exact .ok .nil
  | cons hab _ ih =>
    rw [mapM_cons_eq, mapM_cons_eq]
    exact (hfg _ _ hab).bind fun c d hcd => ih.map fun cs ds hcds => .cons hcd hcds

theorem foldlM {as : List α} {bs : List β} (h : List.Forall₂ r as bs) {f : γ → α → Except ε γ}
    {g : γ → β → Except ε γ} (hfg : ∀ c a b, r a b → Agree e Eq (f c a) (g c b)) (c : γ) :
    Agree e Eq (as.foldlM f c) (bs.foldlM g c) := by
  induction h generalizing c with
  | nil => exact .ok rfl
  | cons hab _ ih =>
    rw [foldlM_cons_eq, foldlM_cons_eq]
    refine (hfg c _ _ hab).bind fun c' d' hcd => ?_
    rw [hcd]
    exact ih d'

end Agree

end

theorem pin_eq_ok_iff {α : Type} (line : Line) (x : Except LineFault α) (a : α) :
    line.pin x = .ok a ↔ x = .ok a := by
  cases x with
  | error fault => simp [Line.pin]
  | ok b => simp [Line.pin]

end TinyCpu
