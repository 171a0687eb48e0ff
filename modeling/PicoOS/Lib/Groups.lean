import Mathlib

/-!
# Groups of items

Items that each belong to one group at most, and the groups, each with a key and
the list of its items. A group opens empty, and closes when its last item leaves
it.
-/
structure Groups (τ ρ κ : Type) where
  key : τ → Option κ
  group : ρ → Option (κ × List τ)

namespace Groups

variable {τ ρ κ : Type} [DecidableEq τ] [DecidableEq ρ]

/-- No items and no groups. -/
def empty : Groups τ ρ κ := ⟨fun _ => none, fun _ => none⟩

def opens (g : Groups τ ρ κ) (p : ρ) (k : κ) : Groups τ ρ κ :=
  { g with group := Function.update g.group p (some (k, [])) }

def joins (g : Groups τ ρ κ) (p : ρ) (k : κ) (l : List τ) (t : τ) : Groups τ ρ κ :=
  ⟨Function.update g.key t (some k), Function.update g.group p (some (k, l ++ [t]))⟩

def leaves (g : Groups τ ρ κ) (p : ρ) (k : κ) (l : List τ) (t : τ) : Groups τ ρ κ :=
  ⟨Function.update g.key t none,
    Function.update g.group p (if l.erase t = [] then none else some (k, l.erase t))⟩

def closes (g : Groups τ ρ κ) (p : ρ) : Groups τ ρ κ :=
  { g with group := Function.update g.group p none }

/-- The keys differ, and each group lists exactly the items with its key. -/
structure Sound (g : Groups τ ρ κ) : Prop where
  distinct : ∀ p q k l m, g.group p = some (k, l) → g.group q = some (k, m) → p = q
  nodup : ∀ p k l, g.group p = some (k, l) → l.Nodup
  mem : ∀ p k l, g.group p = some (k, l) → ∀ t, t ∈ l ↔ g.key t = some k
  owned : ∀ t k, g.key t = some k → ∃ p l, g.group p = some (k, l)

variable {g g' g'' : Groups τ ρ κ} {p q : ρ} {k : κ} {l : List τ} {t : τ}

namespace Sound

omit [DecidableEq τ] [DecidableEq ρ] in
theorem empty : (empty : Groups τ ρ κ).Sound := ⟨nofun, nofun, nofun, nofun⟩

omit [DecidableEq τ] [DecidableEq ρ] in
/-- A key has one group, with one list. -/
theorem group_inj (h : g.Sound) {m : List τ} (at_ : g.group p = some (k, l))
    (at' : g.group q = some (k, m)) : p = q ∧ l = m := by
  have same := h.distinct p q k l m at_ at'
  subst same
  rw [at_] at at'
  cases at'
  exact ⟨rfl, rfl⟩

omit [DecidableEq τ] in
theorem opens (h : g.Sound) (free : g.group p = none) (new : ∀ q l, g.group q ≠ some (k, l)) :
    (g.opens p k).Sound := by
  have cases_ {q : ρ} {k' : κ} {m : List τ} (at_ : (g.opens p k).group q = some (k', m)) :
      q = p ∧ k' = k ∧ m = [] ∨ q ≠ p ∧ g.group q = some (k', m) := by
    by_cases own : q = p
    · subst own
      simp only [Groups.opens, Function.update_self] at at_
      cases at_
      exact .inl ⟨rfl, rfl, rfl⟩
    · simp only [Groups.opens, Function.update_of_ne own] at at_
      exact .inr ⟨own, at_⟩
  refine ⟨fun q r k' l m atq atr => ?_, fun q k' m at_ => ?_, fun q k' m at_ t => ?_,
    fun t k' key => ?_⟩
  · rcases cases_ atq with ⟨rfl, rfl, _⟩ | ⟨_, old⟩ <;>
      rcases cases_ atr with ⟨rfl, same, _⟩ | ⟨_, old'⟩
    · rfl
    · exact absurd old' (new _ _)
    · exact absurd (same ▸ old) (new _ _)
    · exact h.distinct q r k' l m old old'
  · rcases cases_ at_ with ⟨_, _, rfl⟩ | ⟨_, old⟩
    · exact List.nodup_nil
    · exact h.nodup q k' m old
  · rcases cases_ at_ with ⟨_, rfl, rfl⟩ | ⟨_, old⟩
    · refine iff_of_false (by simp) fun key => ?_
      obtain ⟨r, m, old⟩ := h.owned t k' key
      exact new r m old
    · exact h.mem q k' m old t
  · obtain ⟨q, m, old⟩ := h.owned t k' key
    have other : q ≠ p := by
      rintro rfl
      rw [free] at old
      cases old
    exact ⟨q, m, (Function.update_of_ne other ..).trans old⟩

omit [DecidableEq τ] in
/-- A group gets another list, or closes with an empty one. -/
theorem relist (h : g.Sound) (at_ : g.group p = some (k, l)) {key : τ → Option κ} {m : List τ}
    {out : Option (κ × List τ)} (shape : out = some (k, m) ∨ out = none ∧ m = [])
    (nodup : m.Nodup) (mem : ∀ t, t ∈ m ↔ key t = some k)
    (others : ∀ t k', k' ≠ k → (key t = some k' ↔ g.key t = some k')) :
    Sound ⟨key, Function.update g.group p out⟩ := by
  have cases_ {q : ρ} {k' : κ} {l' : List τ}
      (now : Function.update g.group p out q = some (k', l')) :
      q = p ∧ k' = k ∧ l' = m ∨ q ≠ p ∧ k' ≠ k ∧ g.group q = some (k', l') := by
    by_cases own : q = p
    · subst own
      rw [Function.update_self] at now
      rcases shape with some | ⟨none, _⟩
      · rw [some] at now
        cases now
        exact .inl ⟨rfl, rfl, rfl⟩
      · rw [none] at now
        cases now
    · rw [Function.update_of_ne own] at now
      refine .inr ⟨own, fun same => ?_, now⟩
      exact own (h.group_inj now (same ▸ at_)).1
  refine ⟨fun q r k' l' l'' atq atr => ?_, fun q k' l' now => ?_, fun q k' l' now t => ?_,
    fun t k' own => ?_⟩
  · rcases cases_ atq with ⟨rfl, rfl, _⟩ | ⟨_, other, old⟩ <;>
      rcases cases_ atr with ⟨rfl, same, _⟩ | ⟨_, other', old'⟩
    · rfl
    · exact absurd rfl other'
    · exact absurd same other
    · exact h.distinct q r k' l' l'' old old'
  · rcases cases_ now with ⟨_, _, rfl⟩ | ⟨_, _, old⟩
    · exact nodup
    · exact h.nodup q k' l' old
  · rcases cases_ now with ⟨_, rfl, rfl⟩ | ⟨_, other, old⟩
    · exact mem t
    · rw [h.mem q k' l' old t]
      exact (others t k' other).symm
  · by_cases same : k' = k
    · subst same
      have member := (mem t).mpr own
      rcases shape with some | ⟨_, rfl⟩
      · exact ⟨p, m, (Function.update_self ..).trans some⟩
      · exact absurd member List.not_mem_nil
    · obtain ⟨q, l', old⟩ := h.owned t k' ((others t k' same).mp own)
      have other : q ≠ p := by
        rintro rfl
        rw [at_] at old
        cases old
        exact same rfl
      exact ⟨q, l', (Function.update_of_ne other ..).trans old⟩

theorem joins (h : g.Sound) (at_ : g.group p = some (k, l)) (free : g.key t = none) :
    (g.joins p k l t).Sound := by
  have fresh : t ∉ l := fun member => by
    have key := (h.mem p k l at_ t).mp member
    rw [free] at key
    cases key
  refine h.relist at_ (.inl rfl) ?_ (fun u => ?_) fun u k' other => ?_
  · exact List.nodup_append.mpr ⟨h.nodup p k l at_, List.nodup_singleton t,
      fun a inL b inT same => fresh (List.mem_singleton.mp inT ▸ same ▸ inL)⟩
  · by_cases own : u = t
    · subst own
      simp
    · rw [Function.update_of_ne own, List.mem_append, List.mem_singleton, h.mem p k l at_ u]
      exact or_iff_left own
  · by_cases own : u = t
    · subst own
      rw [Function.update_self, free]
      exact iff_of_false (fun same => other (Option.some.inj same).symm) nofun
    · rw [Function.update_of_ne own]

theorem leaves (h : g.Sound) (at_ : g.group p = some (k, l)) (member : t ∈ l) :
    (g.leaves p k l t).Sound := by
  have nodup := h.nodup p k l at_
  have mine : g.key t = some k := (h.mem p k l at_ t).mp member
  have shape : (if l.erase t = [] then none else some (k, l.erase t)) = some (k, l.erase t) ∨
      (if l.erase t = [] then none else some (k, l.erase t)) = none ∧ l.erase t = [] := by
    split
    next last => exact .inr ⟨rfl, last⟩
    next => exact .inl rfl
  refine h.relist at_ shape (nodup.erase t) (fun u => ?_) fun u k' other => ?_
  · by_cases own : u = t
    · subst own
      rw [Function.update_self]
      exact iff_of_false nodup.not_mem_erase nofun
    · rw [Function.update_of_ne own, List.mem_erase_of_ne own]
      exact h.mem p k l at_ u
  · by_cases own : u = t
    · subst own
      rw [Function.update_self, mine]
      exact iff_of_false nofun fun same => other (Option.some.inj same).symm
    · rw [Function.update_of_ne own]

omit [DecidableEq τ] in
theorem closes (h : g.Sound) (at_ : g.group p = some (k, [])) : (g.closes p).Sound := by
  have old {q : ρ} {k' : κ} {m : List τ} (now : (g.closes p).group q = some (k', m)) :
      g.group q = some (k', m) := by
    by_cases own : q = p
    · subst own
      simp only [Groups.closes, Function.update_self] at now
      cases now
    · simpa only [Groups.closes, Function.update_of_ne own] using now
  refine ⟨fun q r k' m m' atq atr => h.distinct q r k' m m' (old atq) (old atr),
    fun q k' m now => h.nodup q k' m (old now), fun q k' m now => h.mem q k' m (old now),
    fun u k' key => ?_⟩
  obtain ⟨q, m, there⟩ := h.owned u k' key
  have other : q ≠ p := by
    rintro rfl
    rw [at_] at there
    cases there
    exact absurd ((h.mem q k [] at_ u).mpr key) List.not_mem_nil
  exact ⟨q, m, (Function.update_of_ne other ..).trans there⟩

end Sound

/-! ### How long a group lives -/

/-- Every group that has an item goes on under its key with items, or closes with its last one. -/
def Continues (g g' : Groups τ ρ κ) : Prop :=
  ∀ p k l, g.group p = some (k, l) → l ≠ [] →
    (∃ l', g'.group p = some (k, l') ∧ l' ≠ []) ∨
      g'.group p = none ∧ ∀ t, g'.key t ≠ some k

namespace Continues

omit [DecidableEq τ] [DecidableEq ρ] in
theorem refl (g : Groups τ ρ κ) : Continues g g := fun _ _ l at_ some => .inl ⟨l, at_, some⟩

omit [DecidableEq τ] in
theorem opens (free : g.group p = none) : Continues g (g.opens p k) := by
  intro q k' l at_ some
  have other : q ≠ p := by
    rintro rfl
    rw [free] at at_
    cases at_
  exact .inl ⟨l, (Function.update_of_ne other ..).trans at_, some⟩

theorem joins (at_ : g.group p = some (k, l)) : Continues g (g.joins p k l t) := by
  intro q k' m old some
  by_cases own : q = p
  · subst own
    rw [at_] at old
    cases old
    exact .inl ⟨_, Function.update_self .., by simp⟩
  · exact .inl ⟨m, (Function.update_of_ne own ..).trans old, some⟩

/-- A group opens, and its first item joins it. -/
theorem opensJoins (free : g.group p = none) :
    Continues g ((g.opens p k).joins p k [] t) := by
  intro q k' l at_ some
  have other : q ≠ p := by
    rintro rfl
    rw [free] at at_
    cases at_
  refine .inl ⟨l, (Function.update_of_ne other ..).trans ?_, some⟩
  exact (Function.update_of_ne other ..).trans at_

theorem leaves (h : g.Sound) (at_ : g.group p = some (k, l)) (member : t ∈ l) :
    Continues g (g.leaves p k l t) := by
  intro q k' m old some
  by_cases own : q = p
  · subst own
    rw [at_] at old
    cases old
    by_cases last : l.erase t = []
    · refine .inr ⟨?_, fun u key => ?_⟩
      · simp only [Groups.leaves, Function.update_self, if_pos last]
      · obtain ⟨r, m, there⟩ := (h.leaves at_ member).owned u k key
        by_cases here : r = q
        · subst here
          simp only [Groups.leaves, Function.update_self, if_pos last] at there
          cases there
        · simp only [Groups.leaves, Function.update_of_ne here] at there
          exact here (h.group_inj there at_).1
    · refine .inl ⟨l.erase t, ?_, last⟩
      simp only [Groups.leaves, Function.update_self, if_neg last]
  · exact .inl ⟨m, (Function.update_of_ne own ..).trans old, some⟩

omit [DecidableEq τ] in
theorem closes (at_ : g.group p = some (k, [])) : Continues g (g.closes p) := by
  intro q k' m old some
  have other : q ≠ p := by
    rintro rfl
    rw [at_] at old
    cases old
    exact some rfl
  exact .inl ⟨m, (Function.update_of_ne other ..).trans old, some⟩

end Continues

end Groups
