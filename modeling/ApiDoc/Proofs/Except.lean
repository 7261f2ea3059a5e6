import Mathlib.Data.List.Forall2

/-!
# Steps that may fail

What is known about a sequence of steps that came to its end: each step came to its
end, and what every step keeps is kept by all of them.  A sequence that did not come to
its end has the error of one of its steps.
-/

namespace ApiDoc

universe u v w

variable {ε : Type u} {α : Type v} {β : Type w}

theorem bind_eq_ok_iff {β : Type v} {x : Except ε α} {f : α → Except ε β} {b : β} :
    x >>= f = .ok b ↔ ∃ a, x = .ok a ∧ f a = .ok b := by
  cases x with
  | error e => simp [bind, Except.bind]
  | ok a => simp [bind, Except.bind]

theorem bind_eq_error_iff {β : Type v} {x : Except ε α} {f : α → Except ε β} {e : ε} :
    x >>= f = .error e ↔ x = .error e ∨ ∃ a, x = .ok a ∧ f a = .error e := by
  cases x with
  | error e => simp [bind, Except.bind]
  | ok a => simp [bind, Except.bind]

theorem map_eq_ok_iff {x : Except ε α} {f : α → β} {b : β} :
    x.map f = .ok b ↔ ∃ a, x = .ok a ∧ f a = b := by
  cases x with
  | error e => simp [Except.map]
  | ok a => simp [Except.map]

theorem mapError_eq_ok_iff {δ : Type w} {x : Except ε α} {f : ε → δ} {a : α} :
    x.mapError f = .ok a ↔ x = .ok a := by
  cases x with
  | error e => exact iff_of_false (fun h => by cases h) (fun h => by cases h)
  | ok b => exact ⟨fun h => congrArg Except.ok (Except.ok.inj h),
      fun h => congrArg Except.ok (Except.ok.inj h)⟩

theorem eq_ok_of_toOption {x : Except ε α} {a : α} (h : x.toOption = some a) : x = .ok a := by
  cases x with
  | error e => cases h
  | ok b => exact congrArg Except.ok (Option.some.inj h)

instance decidableForallOk {p : α → Prop} [DecidablePred p] :
    (x : Except ε α) → Decidable (∀ a, x = .ok a → p a)
  | .ok a => decidable_of_iff (p a) ⟨fun h _ heq => Except.ok.inj heq ▸ h, fun h => h a rfl⟩
  | .error _ => isTrue nofun

instance decidableExistsOk {p : α → Prop} [DecidablePred p] :
    (x : Except ε α) → Decidable (∃ a, x = .ok a ∧ p a)
  | .ok a =>
      decidable_of_iff (p a)
        ⟨fun h => ⟨a, rfl, h⟩, fun ⟨_, heq, h⟩ => Except.ok.inj heq ▸ h⟩
  | .error _ => isFalse nofun

/-- A property of the state that every step keeps holds at the end. -/
theorem foldlM_keeps {p : β → Prop} {step : β → α → Except ε β} {xs : List α} {s t : β}
    (hstep : ∀ x ∈ xs, ∀ s t, step s x = .ok t → p s → p t)
    (hrun : xs.foldlM step s = .ok t) (hs : p s) : p t := by
  induction xs generalizing s with
  | nil =>
      obtain rfl : s = t := Except.ok.inj hrun
      exact hs
  | cons x xs ih =>
      rw [List.foldlM_cons] at hrun
      obtain ⟨next, hnext, hrest⟩ := bind_eq_ok_iff.mp hrun
      exact ih (fun y hy => hstep y (List.mem_cons_of_mem _ hy)) hrest
        (hstep x List.mem_cons_self s next hnext hs)

theorem foldlM_concat_eq_ok_iff {step : β → α → Except ε β} {xs : List α} {x : α} {s t : β} :
    (xs ++ [x]).foldlM step s = .ok t ↔
      ∃ before, xs.foldlM step s = .ok before ∧ step before x = .ok t := by
  rw [List.foldlM_append, bind_eq_ok_iff]
  refine exists_congr fun before => and_congr_right fun _ => ?_
  rw [List.foldlM_cons, bind_eq_ok_iff]
  exact ⟨fun ⟨_, hstep, hend⟩ => Except.ok.inj hend ▸ hstep, fun hstep => ⟨t, hstep, rfl⟩⟩

/-- A sequence comes to its end if every step does, whatever it starts from. -/
theorem exists_foldlM_eq_ok {step : β → α → Except ε β} {xs : List α}
    (h : ∀ x ∈ xs, ∀ s, ∃ t, step s x = .ok t) (s : β) : ∃ t, xs.foldlM step s = .ok t := by
  induction xs generalizing s with
  | nil => exact ⟨s, rfl⟩
  | cons x xs ih =>
      obtain ⟨next, hnext⟩ := h x List.mem_cons_self s
      obtain ⟨t, ht⟩ := ih (fun y hy => h y (List.mem_cons_of_mem _ hy)) next
      exact ⟨t, by rw [List.foldlM_cons]; exact bind_eq_ok_iff.mpr ⟨next, hnext, ht⟩⟩

/-- Checks come to their end if each of them does. -/
theorem forM_eq_ok_iff {f : α → Except ε Unit} {xs : List α} :
    xs.forM f = .ok () ↔ ∀ x ∈ xs, f x = .ok () := by
  induction xs with
  | nil => exact iff_of_true rfl (List.forall_mem_nil _)
  | cons x xs ih =>
      rw [List.forall_mem_cons, ← ih]
      exact bind_eq_ok_iff.trans
        ⟨fun ⟨_, hx, hrest⟩ => ⟨hx, hrest⟩, fun ⟨hx, hrest⟩ => ⟨(), hx, hrest⟩⟩

/-- Each step of a sequence that came to its end did so. -/
theorem exists_step_eq_ok {step : β → α → Except ε β} {xs : List α} {s t : β}
    (hrun : xs.foldlM step s = .ok t) : ∀ x ∈ xs, ∃ before after, step before x = .ok after := by
  induction xs generalizing s with
  | nil => exact fun _ hnone => nomatch hnone
  | cons x xs ih =>
      rw [List.foldlM_cons] at hrun
      obtain ⟨next, hnext, hrest⟩ := bind_eq_ok_iff.mp hrun
      exact List.forall_mem_cons.mpr ⟨⟨s, next, hnext⟩, ih hrest⟩

/-- The error of a sequence is the error of one of its steps. -/
theorem exists_step_eq_error {step : β → α → Except ε β} {xs : List α} {s : β} {e : ε}
    (hrun : xs.foldlM step s = .error e) : ∃ x ∈ xs, ∃ before, step before x = .error e := by
  induction xs generalizing s with
  | nil => cases hrun
  | cons x xs ih =>
      rw [List.foldlM_cons] at hrun
      rcases bind_eq_error_iff.mp hrun with hfirst | ⟨next, -, hrest⟩
      · exact ⟨x, List.mem_cons_self, s, hfirst⟩
      · obtain ⟨y, hy, hstep⟩ := ih hrest
        exact ⟨y, List.mem_cons_of_mem _ hy, hstep⟩

theorem foldlM_congr {step other : β → α → Except ε β} {xs : List α}
    (h : ∀ x ∈ xs, ∀ s, step s x = other s x) (s : β) : xs.foldlM step s = xs.foldlM other s := by
  induction xs generalizing s with
  | nil => rfl
  | cons x xs ih =>
      rw [List.foldlM_cons, List.foldlM_cons, h x List.mem_cons_self s]
      exact bind_congr (ih fun y hy => h y (List.mem_cons_of_mem _ hy))

/-- Steps that do nothing may be left out. -/
theorem foldlM_filter_of_idle {step : β → α → Except ε β} {p : α → Bool} {xs : List α}
    (hidle : ∀ x s, p x = false → step s x = .ok s) (s : β) :
    (xs.filter p).foldlM step s = xs.foldlM step s := by
  induction xs generalizing s with
  | nil => rfl
  | cons x xs ih =>
      rw [List.foldlM_cons]
      cases hp : p x with
      | true =>
          rw [List.filter_cons_of_pos hp, List.foldlM_cons]
          exact bind_congr fun next => ih next
      | false =>
          rw [List.filter_cons_of_neg (by simp [hp]), hidle x s hp]
          exact ih s

/-- What one step brings about and all others keep holds at the end. -/
theorem foldlM_reaches {p : β → Prop} {step : β → α → Except ε β} {xs : List α} {s t : β}
    (hstep : ∀ x ∈ xs, ∀ s t, step s x = .ok t → p s → p t)
    (hrun : xs.foldlM step s = .ok t) {x : α} (hx : x ∈ xs)
    (hreach : ∀ s t, step s x = .ok t → p t) : p t := by
  induction xs generalizing s with
  | nil => cases hx
  | cons first rest ih =>
      rw [List.foldlM_cons] at hrun
      obtain ⟨next, hnext, hrest⟩ := bind_eq_ok_iff.mp hrun
      have hkeep : ∀ y ∈ rest, ∀ s t, step s y = .ok t → p s → p t :=
        fun y hy => hstep y (List.mem_cons_of_mem _ hy)
      rcases List.mem_cons.mp hx with rfl | hx
      · exact foldlM_keeps hkeep hrest (hreach s next hnext)
      · exact ih hkeep hrest hx

theorem mapM_cons_eq_ok_iff {β : Type v} {f : α → Except ε β} {x : α} {xs : List α}
    {ys : List β} : (x :: xs).mapM f = .ok ys ↔
      ∃ y rest, f x = .ok y ∧ xs.mapM f = .ok rest ∧ ys = y :: rest := by
  rw [List.mapM_cons, bind_eq_ok_iff]
  constructor
  · rintro ⟨y, hy, hrun⟩
    obtain ⟨rest, hrest, hrun⟩ := bind_eq_ok_iff.mp hrun
    exact ⟨y, rest, hy, hrest, (Except.ok.inj hrun).symm⟩
  · rintro ⟨y, rest, hy, hrest, rfl⟩
    exact ⟨y, hy, bind_eq_ok_iff.mpr ⟨rest, hrest, rfl⟩⟩

/-- Every result of a sequence of calls is the result of one of them. -/
theorem mapM_concat_eq_ok_iff {β : Type v} {f : α → Except ε β} {xs : List α} {x : α}
    {ys : List β} : (xs ++ [x]).mapM f = .ok ys ↔
      ∃ front y, xs.mapM f = .ok front ∧ f x = .ok y ∧ ys = front ++ [y] := by
  induction xs generalizing ys with
  | nil =>
      rw [List.nil_append, mapM_cons_eq_ok_iff]
      constructor
      · rintro ⟨y, rest, hy, hrest, rfl⟩
        obtain rfl : [] = rest := Except.ok.inj hrest
        exact ⟨[], y, rfl, hy, rfl⟩
      · rintro ⟨front, y, hfront, hy, rfl⟩
        obtain rfl : [] = front := Except.ok.inj hfront
        exact ⟨y, [], hy, rfl, rfl⟩
  | cons z zs ih =>
      rw [List.cons_append, mapM_cons_eq_ok_iff]
      constructor
      · rintro ⟨first, rest, hfirst, hrest, rfl⟩
        obtain ⟨front, y, hfront, hy, rfl⟩ := ih.mp hrest
        exact ⟨first :: front, y, mapM_cons_eq_ok_iff.mpr ⟨first, front, hfirst, hfront, rfl⟩, hy,
          rfl⟩
      · rintro ⟨front, y, hfront, hy, rfl⟩
        obtain ⟨first, rest, hfirst, hrest, rfl⟩ := mapM_cons_eq_ok_iff.mp hfront
        exact ⟨first, rest ++ [y], hfirst, ih.mpr ⟨rest, y, hrest, hy, rfl⟩, rfl⟩

theorem exists_of_mapM {β : Type v} {f : α → Except ε β} {xs : List α} {ys : List β}
    (hrun : xs.mapM f = .ok ys) {x : α} (hx : x ∈ xs) : ∃ y, f x = .ok y := by
  induction xs generalizing ys with
  | nil => cases hx
  | cons z zs ih =>
      obtain ⟨first, rest, hfirst, hrest, rfl⟩ := mapM_cons_eq_ok_iff.mp hrun
      rcases List.mem_cons.mp hx with rfl | hx
      · exact ⟨first, hfirst⟩
      · exact ih hrest hx

theorem exists_of_mem_mapM {β : Type v} {f : α → Except ε β} {xs : List α} {ys : List β}
    (hrun : xs.mapM f = .ok ys) {y : β} (hy : y ∈ ys) : ∃ x ∈ xs, f x = .ok y := by
  induction xs generalizing ys with
  | nil =>
      obtain rfl : [] = ys := Except.ok.inj hrun
      cases hy
  | cons x xs ih =>
      obtain ⟨first, rest, hfirst, hrest, rfl⟩ := mapM_cons_eq_ok_iff.mp hrun
      rcases List.mem_cons.mp hy with rfl | hy
      · exact ⟨x, List.mem_cons_self, hfirst⟩
      · obtain ⟨z, hz, heq⟩ := ih hrest hy
        exact ⟨z, List.mem_cons_of_mem _ hz, heq⟩

/-- What is known of each call is known of the results in order. -/
theorem map_eq_of_mapM {β : Type v} {γ : Type w} {f : α → Except ε β} {g : α → γ} {k : β → γ}
    {xs : List α} {ys : List β} (hstep : ∀ x ∈ xs, ∀ y, f x = .ok y → k y = g x)
    (hrun : xs.mapM f = .ok ys) : ys.map k = xs.map g := by
  induction xs generalizing ys with
  | nil =>
      obtain rfl : [] = ys := Except.ok.inj hrun
      rfl
  | cons x xs ih =>
      obtain ⟨first, rest, hfirst, hrest, rfl⟩ := mapM_cons_eq_ok_iff.mp hrun
      rw [List.map_cons, List.map_cons, hstep x List.mem_cons_self first hfirst,
        ih (fun y hy => hstep y (List.mem_cons_of_mem _ hy)) hrest]

/-- Calls in another order have the same results in another order. -/
theorem exists_mapM_eq_ok_of_perm {β : Type v} {f : α → Except ε β} {xs zs : List α}
    (h : xs.Perm zs) {ys : List β} (hrun : xs.mapM f = .ok ys) :
    ∃ others, zs.mapM f = .ok others ∧ ys.Perm others := by
  induction h generalizing ys with
  | nil => exact ⟨ys, hrun, .refl _⟩
  | cons x _ ih =>
      obtain ⟨y, rest, hy, hrest, rfl⟩ := mapM_cons_eq_ok_iff.mp hrun
      obtain ⟨others, hothers, hperm⟩ := ih hrest
      exact ⟨y :: others, mapM_cons_eq_ok_iff.mpr ⟨y, others, hy, hothers, rfl⟩, hperm.cons y⟩
  | swap x y xs =>
      obtain ⟨first, more, hfirst, hmore, rfl⟩ := mapM_cons_eq_ok_iff.mp hrun
      obtain ⟨second, rest, hsecond, hrest, rfl⟩ := mapM_cons_eq_ok_iff.mp hmore
      have hswapped : (x :: y :: xs).mapM f = .ok (second :: first :: rest) :=
        mapM_cons_eq_ok_iff.mpr ⟨second, first :: rest, hsecond,
          mapM_cons_eq_ok_iff.mpr ⟨first, rest, hfirst, hrest, rfl⟩, rfl⟩
      exact ⟨_, hswapped, .swap second first rest⟩
  | trans _ _ ihfirst ihsecond =>
      obtain ⟨middle, hmiddle, hto⟩ := ihfirst hrun
      obtain ⟨others, hothers, hfrom⟩ := ihsecond hmiddle
      exact ⟨others, hothers, hto.trans hfrom⟩

/-- A sequence of calls that all come to their ends has their results. -/
theorem mapM_eq_ok_map {β : Type v} {f : α → Except ε β} {g : α → β} {xs : List α}
    (h : ∀ x ∈ xs, f x = .ok (g x)) : xs.mapM f = .ok (xs.map g) := by
  induction xs with
  | nil => rfl
  | cons x xs ih =>
      obtain ⟨hx, hxs⟩ := List.forall_mem_cons.mp h
      exact mapM_cons_eq_ok_iff.mpr ⟨g x, xs.map g, hx, ih hxs, rfl⟩

theorem mapM_eq_some_map {f : α → Option β} {g : α → β} {xs : List α}
    (h : ∀ x ∈ xs, f x = some (g x)) : xs.mapM f = some (xs.map g) := by
  induction xs with
  | nil => rfl
  | cons x xs ih =>
      obtain ⟨hx, hxs⟩ := List.forall_mem_cons.mp h
      rw [List.mapM_cons, hx, ih hxs]
      rfl

/-- What is made from each value and read back gives the values. -/
theorem mapM_map_eq_some {make : α → β} {read : β → Option α} {xs : List α}
    (h : ∀ x ∈ xs, read (make x) = some x) : (xs.map make).mapM read = some xs := by
  rw [List.mapM_map]
  exact (mapM_eq_some_map h).trans (congrArg some (List.map_id xs))

/-- A run over a list gives what each step gives, one by one. -/
theorem forall₂_of_mapM_some {f : α → Option β} {xs : List α} {ys : List β}
    (hrun : xs.mapM f = some ys) : List.Forall₂ (fun x y => f x = some y) xs ys := by
  induction xs generalizing ys with
  | nil =>
      obtain rfl : [] = ys := Option.some.inj hrun
      exact .nil
  | cons x xs ih =>
      rw [List.mapM_cons] at hrun
      obtain ⟨first, hfirst, hrun⟩ := Option.bind_eq_some_iff.mp hrun
      obtain ⟨rest, hrest, hrun⟩ := Option.bind_eq_some_iff.mp hrun
      obtain rfl : first :: rest = ys := Option.some.inj hrun
      exact .cons hfirst (ih hrest)

theorem exists_of_mem_mapM_some {f : α → Option β} {xs : List α} {ys : List β}
    (hrun : xs.mapM f = some ys) {y : β} (hy : y ∈ ys) : ∃ x ∈ xs, f x = some y := by
  have hpairs := forall₂_of_mapM_some hrun
  clear hrun
  induction hpairs with
  | nil => cases hy
  | @cons x made rest others hfirst _ ih =>
      rcases List.mem_cons.mp hy with rfl | hy
      · exact ⟨x, List.mem_cons_self, hfirst⟩
      · obtain ⟨z, hz, heq⟩ := ih hy
        exact ⟨z, List.mem_cons_of_mem _ hz, heq⟩

end ApiDoc
