import Mathlib.Data.List.Forall2
import Mathlib.Tactic.ByContra

/-! # Recursion in a bounded number of steps

A recursive function that is given a number of steps fails with an error of its own, `stop`, where
the steps run out. With more steps it can only do better (`Extends`). If a call on one of finitely
many arguments only depends on calls on those, as many steps as there are arguments are as good as
any larger number (`steps_suffice`): while more steps help, there is always one more argument that
the function has got through. -/

namespace Messaging

variable {ε α β : Type}

/-- The second outcome is the first, unless that one ran out of steps. -/
def Extends (stop : ε) (x y : Except ε α) : Prop := x = .error stop ∨ x = y

namespace Extends

variable {stop : ε} {x y : Except ε α}

theorem refl (x : Except ε α) : Extends stop x x := .inr rfl

theorem antisymm (h : Extends stop x y) (h' : Extends stop y x) : x = y := by
  rcases h with hx | h
  · rcases h' with hy | h'
    · rw [hx, hy]
    · exact h'.symm
  · exact h

theorem bind {f g : α → Except ε β} (h : Extends stop x y)
    (hfg : ∀ a, y = .ok a → Extends stop (f a) (g a)) :
    Extends stop (x.bind f) (y.bind g) := by
  rcases h with rfl | rfl
  · exact .inl rfl
  · cases x with
    | error e => exact .inr rfl
    | ok a => exact hfg a rfl

theorem map (f : α → β) (h : Extends stop x y) : Extends stop (x.map f) (y.map f) := by
  rcases h with rfl | rfl
  · exact .inl rfl
  · exact .inr rfl

/-- Lists extend item by item, where an item only counts if all before it are the same. -/
theorem mapM_of_before {f g : α → Except ε β} {l : List α}
    (h : ∀ before a after, l = before ++ a :: after →
      (∀ b ∈ before, ∃ v, f b = .ok v ∧ g b = .ok v) → Extends stop (f a) (g a)) :
    Extends stop (l.mapM f) (l.mapM g) := by
  induction l with
  | nil => exact .inr rfl
  | cons a rest ih =>
    rw [List.mapM_cons, List.mapM_cons]
    rcases h [] a rest rfl fun _ hb => absurd hb List.not_mem_nil with ha | ha
    · rw [ha]
      exact .inl rfl
    rw [ha]
    refine bind (refl _) fun v hv => bind (ih fun before b after hsplit hbefore => ?_)
      fun _ _ => refl _
    exact h (a :: before) b after (congrArg (a :: ·) hsplit)
      (List.forall_mem_cons.mpr ⟨⟨v, ha.trans hv, hv⟩, hbefore⟩)

theorem mapM {f g : α → Except ε β} {l : List α} (h : ∀ a ∈ l, Extends stop (f a) (g a)) :
    Extends stop (l.mapM f) (l.mapM g) :=
  mapM_of_before fun before a _ hsplit _ =>
    h a (hsplit ▸ List.mem_append_right before List.mem_cons_self)

end Extends

/-- What holds of every pair from some number of steps on holds of all pairs from some number on. -/
theorem forall₂_eventually {R : Nat → α → β → Prop} {as : List α} {bs : List β}
    (h : List.Forall₂ (fun a b => ∃ n, ∀ m ≥ n, R m a b) as bs) :
    ∃ n, ∀ m ≥ n, List.Forall₂ (R m) as bs := by
  induction h with
  | nil => exact ⟨0, fun _ _ => .nil⟩
  | cons hfirst _ ih =>
    obtain ⟨n, hn⟩ := hfirst
    obtain ⟨k, hk⟩ := ih
    exact ⟨max n k, fun m hm => .cons (hn m (by omega)) (hk m (by omega))⟩

theorem mapM_of_forall₂ {f : α → Except ε β} {as : List α} {bs : List β}
    (h : List.Forall₂ (fun a b => f a = .ok b) as bs) : as.mapM f = .ok bs := by
  induction h with
  | nil => rfl
  | cons hfirst _ ih =>
    rw [List.mapM_cons, hfirst, ih]
    rfl

theorem bind_eq_ok {x : Except ε α} {f : α → Except ε β} {b : β} (h : x.bind f = .ok b) :
    ∃ a, x = .ok a ∧ f a = .ok b := by
  cases x with
  | error e => cases h
  | ok a => exact ⟨a, rfl, h⟩

theorem map_eq_ok {f : α → β} {x : Except ε α} {b : β} (h : f <$> x = .ok b) :
    ∃ a, x = .ok a ∧ f a = b := by
  cases x with
  | error e => cases h
  | ok a => exact ⟨a, rfl, Except.ok.inj h⟩

theorem forall₂_of_mapM {f : α → Except ε β} {as : List α} {bs : List β}
    (h : as.mapM f = .ok bs) : List.Forall₂ (fun a b => f a = .ok b) as bs := by
  induction as generalizing bs with
  | nil =>
    cases h
    exact .nil
  | cons a rest ih =>
    rw [List.mapM_cons] at h
    cases ha : f a with
    | error e =>
      rw [ha] at h
      cases h
    | ok b =>
      rw [ha] at h
      cases hrest : rest.mapM f with
      | error e =>
        rw [hrest] at h
        cases h
      | ok bs =>
        rw [hrest] at h
        cases h
        exact .cons ha (ih hrest)

theorem map_eq_error {f : α → β} {x : Except ε α} {e : ε} (h : f <$> x = .error e) :
    x = .error e := by
  cases x with
  | error e' => exact congrArg Except.error (Except.error.inj h)
  | ok a => cases h

theorem mapM_congr {f g : α → Except ε β} {as : List α} (h : ∀ a ∈ as, f a = g a) :
    as.mapM f = as.mapM g := by
  induction as with
  | nil => rfl
  | cons a rest ih =>
    rw [List.mapM_cons, List.mapM_cons, h a List.mem_cons_self,
      ih fun a ha => h a (List.mem_cons_of_mem _ ha)]

/-- Where some item fails, the first one that does gives the error. -/
theorem mapM_eq_error {f : α → Except ε β} {as : List α} {e : ε} (h : as.mapM f = .error e) :
    ∃ before a after, as = before ++ a :: after ∧ (∀ b ∈ before, ∃ v, f b = .ok v) ∧
      f a = .error e := by
  induction as with
  | nil => cases h
  | cons a rest ih =>
    rw [List.mapM_cons] at h
    cases ha : f a with
    | error e' =>
      rw [ha] at h
      cases h
      exact ⟨[], a, rest, rfl, fun _ hb => absurd hb List.not_mem_nil, ha⟩
    | ok v =>
      rw [ha] at h
      cases hrest : rest.mapM f with
      | ok vs =>
        rw [hrest] at h
        cases h
      | error e' =>
        rw [hrest] at h
        cases h
        obtain ⟨before, b, after, rfl, hbefore, hb⟩ := ih hrest
        exact ⟨a :: before, b, after, rfl, List.forall_mem_cons.mpr ⟨⟨v, ha⟩, hbefore⟩, hb⟩

/-- Where an item runs out of steps, the others before it do or succeed, the list runs out. -/
theorem mapM_stops {f : α → Except ε β} {stop : ε} {before after : List α} {a : α}
    (hbefore : ∀ b ∈ before, f b = .error stop ∨ ∃ v, f b = .ok v) (ha : f a = .error stop) :
    (before ++ a :: after).mapM f = .error stop := by
  induction before with
  | nil =>
    rw [List.nil_append, List.mapM_cons, ha]
    rfl
  | cons b rest ih =>
    rw [List.cons_append, List.mapM_cons]
    rcases hbefore b List.mem_cons_self with hb | ⟨v, hb⟩
    · rw [hb]
      rfl
    · rw [hb, ih fun b hb => hbefore b (List.mem_cons_of_mem _ hb)]
      rfl

theorem exists_mem_of_forall₂ {R : α → β → Prop} {as : List α} {bs : List β}
    (h : List.Forall₂ R as bs) {b : β} (hb : b ∈ bs) : ∃ a ∈ as, R a b := by
  induction h with
  | nil => cases hb
  | cons hfirst _ ih =>
    rcases List.mem_cons.mp hb with rfl | hb
    · exact ⟨_, List.mem_cons_self, hfirst⟩
    · obtain ⟨a, ha, hr⟩ := ih hb
      exact ⟨a, List.mem_cons_of_mem _ ha, hr⟩

theorem exists_forall₂ {R : α → β → Prop} {as : List α} (h : ∀ a ∈ as, ∃ b, R a b) :
    ∃ bs, List.Forall₂ R as bs := by
  induction as with
  | nil => exact ⟨[], .nil⟩
  | cons a rest ih =>
    obtain ⟨b, hb⟩ := h a List.mem_cons_self
    obtain ⟨bs, hbs⟩ := ih fun a ha => h a (List.mem_cons_of_mem _ ha)
    exact ⟨b :: bs, .cons hb hbs⟩

/-- Where each pair goes with a third item, so do both lists with a list of these. -/
theorem exists_of_forall₂ {γ : Type} {R : α → γ → Prop} {S : β → γ → Prop} {as : List α}
    {bs : List β} (h : List.Forall₂ (fun a b => ∃ c, R a c ∧ S b c) as bs) :
    ∃ cs, List.Forall₂ R as cs ∧ List.Forall₂ S bs cs := by
  induction h with
  | nil => exact ⟨[], .nil, .nil⟩
  | cons hfirst _ ih =>
    obtain ⟨c, hr, hs⟩ := hfirst
    obtain ⟨cs, hrs, hss⟩ := ih
    exact ⟨c :: cs, .cons hr hrs, .cons hs hss⟩

theorem countP_lt_countP {l : List α} {p q : α → Bool} (h : ∀ a ∈ l, p a = true → q a = true)
    {a : α} (ha : a ∈ l) (hp : p a = false) (hq : q a = true) : l.countP p < l.countP q := by
  induction l with
  | nil => cases ha
  | cons b rest ih =>
    have hrest : ∀ a ∈ rest, p a = true → q a = true := fun a ha =>
      h a (List.mem_cons_of_mem _ ha)
    rcases List.mem_cons.mp ha with rfl | ha
    · rw [List.countP_cons_of_neg (by simp [hp]), List.countP_cons_of_pos hq]
      exact Nat.lt_succ_of_le (List.countP_mono_left hrest)
    · have hlt := ih hrest ha
      have hb := h b List.mem_cons_self
      rw [List.countP_cons, List.countP_cons]
      split <;> split <;> simp_all
      omega

section

variable {F : Nat → α → Except ε β} {stop : ε} {P : List α}

theorem extends_of_le (hzero : ∀ a, F 0 a = .error stop)
    (hstep : ∀ m n, (∀ a ∈ P, Extends stop (F m a) (F n a)) →
      ∀ a ∈ P, Extends stop (F (m + 1) a) (F (n + 1) a))
    {m n : Nat} (h : m ≤ n) : ∀ a ∈ P, Extends stop (F m a) (F n a) := by
  induction m generalizing n with
  | zero => exact fun a _ => .inl (hzero a)
  | succ m ih =>
    obtain ⟨n, rfl⟩ : ∃ k, n = k + 1 := ⟨n - 1, by omega⟩
    exact hstep m n (ih (by omega))

/-- Where one more step changes nothing, no number of steps does. -/
theorem eq_of_stable
    (hstep : ∀ m n, (∀ a ∈ P, Extends stop (F m a) (F n a)) →
      ∀ a ∈ P, Extends stop (F (m + 1) a) (F (n + 1) a))
    {k : Nat} (h : ∀ a ∈ P, F (k + 1) a = F k a) (d : Nat) : ∀ a ∈ P, F (k + d) a = F k a := by
  induction d with
  | zero => exact fun _ _ => rfl
  | succ d ih =>
    intro a ha
    have hup := hstep (k + d) k (fun a ha => .inr (ih a ha)) a ha
    have hdown := hstep k (k + d) (fun a ha => .inr (ih a ha).symm) a ha
    exact (hup.antisymm hdown).trans (h a ha)

open Classical in
/-- Until some step changes nothing, every step gets through one more argument. -/
theorem stable_or_le_countP (hzero : ∀ a, F 0 a = .error stop)
    (hstep : ∀ m n, (∀ a ∈ P, Extends stop (F m a) (F n a)) →
      ∀ a ∈ P, Extends stop (F (m + 1) a) (F (n + 1) a)) (n : Nat) :
    (∃ k < n, ∀ a ∈ P, F (k + 1) a = F k a) ∨
      n ≤ P.countP fun a => decide (F n a ≠ .error stop) := by
  induction n with
  | zero => exact .inr (Nat.zero_le _)
  | succ n ih =>
    rcases ih with ⟨k, hk, hstable⟩ | hcount
    · exact .inl ⟨k, Nat.lt_succ_of_lt hk, hstable⟩
    by_cases hstable : ∀ a ∈ P, F (n + 1) a = F n a
    · exact .inl ⟨n, Nat.lt_succ_self n, hstable⟩
    right
    push Not at hstable
    obtain ⟨a, ha, hne⟩ := hstable
    have hmono := extends_of_le hzero hstep (Nat.le_succ n)
    have hn : F n a = .error stop := (hmono a ha).resolve_right fun h => hne h.symm
    refine Nat.lt_of_le_of_lt hcount (countP_lt_countP (fun b hb h => ?_) ha ?_ ?_)
    · rw [decide_eq_true_eq] at h ⊢
      rwa [← (hmono b hb).resolve_left h]
    · simp [hn]
    · rw [decide_eq_true_eq]
      exact fun h => hne (h.trans hn.symm)

/-- As many steps as there are arguments are enough. -/
theorem steps_suffice (hzero : ∀ a, F 0 a = .error stop)
    (hstep : ∀ m n, (∀ a ∈ P, Extends stop (F m a) (F n a)) →
      ∀ a ∈ P, Extends stop (F (m + 1) a) (F (n + 1) a))
    (n : Nat) (hn : P.length ≤ n) : ∀ a ∈ P, F n a = F P.length a := by
  classical
  intro a ha
  obtain ⟨k, hk, hstable⟩ : ∃ k < P.length + 1, ∀ a ∈ P, F (k + 1) a = F k a := by
    refine (stable_or_le_countP hzero hstep (P.length + 1)).resolve_right fun h => ?_
    have := List.countP_le_length (p := fun a => decide (F (P.length + 1) a ≠ .error stop)) (l := P)
    omega
  have hfrom := eq_of_stable hstep hstable
  have hn' := hfrom (n - k) a ha
  have hP' := hfrom (P.length - k) a ha
  rw [Nat.add_sub_of_le (by omega)] at hn' hP'
  rw [hn', hP']

end

end Messaging
